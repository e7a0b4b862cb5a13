/-!
Names for runs that were given none: an adjective and a noun.
-/

namespace HeadJob
namespace RunName

def adjectives : List String :=
  ["agile", "amber", "bold", "brave", "bright", "calm", "clever", "cosmic", "crisp", "curious",
   "daring", "eager", "elegant", "fancy", "fierce", "gentle", "golden", "happy", "hidden",
   "jolly", "keen", "lively", "lucid", "mellow", "mighty", "nimble", "noble", "patient",
   "quiet", "rapid", "serene", "shiny", "silent", "stoic", "sunny", "swift", "tender",
   "vivid", "wise", "zealous"]

def nouns : List String :=
  ["albatross", "badger", "beacon", "canyon", "cedar", "comet", "coral", "crane", "delta",
   "ember", "falcon", "fjord", "forest", "glacier", "harbor", "heron", "island", "lagoon",
   "lantern", "meadow", "meteor", "nebula", "orchid", "otter", "pebble", "pioneer", "quasar",
   "raven", "river", "sequoia", "sparrow", "summit", "tundra", "valley", "voyager", "walrus",
   "willow", "yak", "zephyr", "zenith"]

/-- The name for two numbers, which may be drawn from any range. -/
def ofNumbers (i j : Nat) : String :=
  adjectives.getD (i % adjectives.length) "quiet" ++ "-" ++
    nouns.getD (j % nouns.length) "river"

/-- Whether a name is two words of small letters with a hyphen between them. -/
def isAdjectiveNoun (name : String) : Bool :=
  match name.toList.splitOn '-' with
  | [a, b] =>
    !a.isEmpty && !b.isEmpty && a.all Char.isLower && b.all Char.isLower
  | _ => false

end RunName
end HeadJob
