import Mathlib.Data.List.Basic
import Mathlib.Data.List.TakeWhile
import HeadJob.Arguments

/-!
How the arguments of a launch are taken apart.

Arguments are taken from the left: a flag takes the argument after it whatever that is, and any other
argument stands for itself.  There is one way to do this, and it tells all that is read, or the flag that
stands last and lacks its value.
-/

namespace HeadJob

namespace Flag

/-- The arguments that say the same flag. -/
def spellings : Flag → List String
  | name => ["-name"]
  | volume => ["-v"]
  | image => ["-head-image", "-pod-image"]
  | cpus => ["-head-cpus"]
  | memory => ["-head-memory"]
  | config => ["-c"]
  | prescript => ["-head-prescript"]

theorem ofArgument?_eq_some_iff {a : String} {flag : Flag} :
    ofArgument? a = some flag ↔ a ∈ flag.spellings := by
  constructor
  · intro h
    unfold ofArgument? at h
    split at h <;> cases h <;> decide
  · intro h
    revert a
    cases flag <;> decide

end Flag

/-! ## Taking arguments from the left -/

/-- What is taken from arguments in one step. -/
inductive Taken where
  | setting (flag value : String)
  | word (text : String)
  deriving DecidableEq, Repr

namespace Taken

/-- The flags that take a value. -/
def flags : List String :=
  ["-name", "-v", "-head-image", "-pod-image", "-head-cpus", "-head-memory", "-c", "-head-prescript"]

/-- What is taken from arguments, and the flag that stands last and lacks its value, if one does. -/
inductive From : List String → List Taken → Option String → Prop
  | done : From [] [] none
  | lacking {flag : String} (hflag : flag ∈ flags) : From [flag] [] (some flag)
  | setting {flag value : String} {args : List String} {taken : List Taken} {lack : Option String}
      (hflag : flag ∈ flags) (h : From args taken lack) :
      From (flag :: value :: args) (.setting flag value :: taken) lack
  | word {text : String} {args : List String} {taken : List Taken} {lack : Option String}
      (htext : text ∉ flags) (h : From args taken lack) :
      From (text :: args) (.word text :: taken) lack

/-- The value, if it was given with one of these flags. -/
def valueOf? (spellings : List String) : Taken → Option String
  | setting flag value => if flag ∈ spellings then some value else none
  | word _ => none

/-- The text, if it is handed on. -/
def handedOn? : Taken → Option String
  | setting _ _ => none
  | word text => if text ∈ commandWords then none else some text

/-- The values that were given with any of the flags, in their order. -/
def values (taken : List Taken) (spellings : List String) : List String :=
  taken.filterMap (valueOf? spellings)

def handedOn (taken : List Taken) : List String := taken.filterMap handedOn?

/-- The last value that was given with any of the flags, else the default. -/
def last (taken : List Taken) (spellings : List String) (default : String) : String :=
  (values taken spellings).getLast?.getD default

end Taken

namespace Arguments

/-- The arguments say what was taken from them. -/
structure Says (a : Arguments) (freshName : String) (taken : List Taken) : Prop where
  name : a.name = Taken.last taken ["-name"] freshName
  /-- The name comes in front of the first dash, and nothing else changes its place. -/
  forwarded : ∃ front back, a.forwarded = front ++ ["-name", a.name] ++ back ∧
    front ++ back = Taken.handedOn taken ∧ (∀ w ∈ front, isDashed w = false) ∧
    ∀ w ∈ back.head?, isDashed w = true
  volumes : a.volumes = Taken.values taken ["-v"]
  image : a.image = Taken.last taken ["-head-image", "-pod-image"] defaultImage
  cpus : a.cpus = Taken.last taken ["-head-cpus"] defaultCpus
  memory : a.memory = Taken.last taken ["-head-memory"] defaultMemory
  configPath : a.configPath = Taken.last taken ["-c"] defaultConfigPath

end Arguments

namespace Taken

theorem isSome_ofArgument?_iff (a : String) : (Flag.ofArgument? a).isSome = true ↔ a ∈ flags := by
  constructor
  · intro h
    obtain ⟨flag, hflag⟩ := Option.isSome_iff_exists.1 h
    have hspellings : ∀ a ∈ flag.spellings, a ∈ flags := by cases flag <;> decide
    exact hspellings a (Flag.ofArgument?_eq_some_iff.1 hflag)
  · intro h
    have hflags : ∀ a ∈ flags, (Flag.ofArgument? a).isSome = true := by decide
    exact hflags a h

theorem ofArgument?_eq_none {a : String} (h : a ∉ flags) : Flag.ofArgument? a = none := by
  rwa [← Option.not_isSome_iff_eq_none, isSome_ofArgument?_iff]

/-- The argument that is read, unless it is dropped. -/
def argument? : Taken → Option Argument
  | setting flag value => (Flag.ofArgument? flag).map (.setting · value)
  | word text => if text ∈ commandWords then none else some (.forwarded text)

/-- What arguments are split into. -/
def outcome (taken : List Taken) : Option String → Except MissingValue (List Argument)
  | some flag => .error ⟨flag⟩
  | none => .ok (taken.filterMap argument?)

theorem outcome_setting {flag : String} (hflag : flag ∈ flags) (value : String)
    (taken : List Taken) (lack : Option String) :
    ∃ f, Flag.ofArgument? flag = some f ∧
      outcome (setting flag value :: taken) lack =
        (outcome taken lack).map (Argument.setting f value :: ·) := by
  obtain ⟨f, hf⟩ := Option.isSome_iff_exists.1 ((isSome_ofArgument?_iff flag).2 hflag)
  refine ⟨f, hf, ?_⟩
  cases lack with
  | some _ => rfl
  | none => simp [outcome, Except.map, argument?, hf]

theorem outcome_word (text : String) (taken : List Taken) (lack : Option String) :
    outcome (word text :: taken) lack =
      (outcome taken lack).map fun args =>
        if text ∈ commandWords then args else .forwarded text :: args := by
  cases lack with
  | some _ => rfl
  | none => by_cases hcommand : text ∈ commandWords <;> simp [outcome, Except.map, argument?, hcommand]

namespace From

variable {args : List String} {taken taken' : List Taken} {lack lack' : Option String}

theorem exists_from : ∀ args : List String, ∃ taken lack, From args taken lack
  | [] => ⟨[], none, .done⟩
  | [a] => by
    by_cases ha : a ∈ flags
    · exact ⟨[], some a, .lacking ha⟩
    · exact ⟨[.word a], none, .word ha .done⟩
  | a :: b :: rest => by
    by_cases ha : a ∈ flags
    · obtain ⟨taken, lack, h⟩ := exists_from rest
      exact ⟨.setting a b :: taken, lack, .setting ha h⟩
    · obtain ⟨taken, lack, h⟩ := exists_from (b :: rest)
      exact ⟨.word a :: taken, lack, .word ha h⟩

theorem unique (h : From args taken lack) (h' : From args taken' lack') :
    taken' = taken ∧ lack' = lack := by
  induction h generalizing taken' lack' with
  | done =>
    cases h'
    exact ⟨rfl, rfl⟩
  | lacking hflag =>
    cases h' with
    | lacking => exact ⟨rfl, rfl⟩
    | word hword => exact absurd hflag hword
  | setting hflag _ ih =>
    cases h' with
    | setting _ h' =>
      obtain ⟨rfl, rfl⟩ := ih h'
      exact ⟨rfl, rfl⟩
    | word hword => exact absurd hflag hword
  | word hword _ ih =>
    cases h' with
    | lacking hflag => exact absurd hflag hword
    | setting hflag => exact absurd hflag hword
    | word _ h' =>
      obtain ⟨rfl, rfl⟩ := ih h'
      exact ⟨rfl, rfl⟩

theorem split_eq (h : From args taken lack) : Argument.split args = outcome taken lack := by
  induction h with
  | done => rfl
  | lacking hflag => rw [Argument.split, if_pos ((isSome_ofArgument?_iff _).2 hflag), outcome]
  | @setting flag value args taken lack hflag _ ih =>
    obtain ⟨f, hf, houtcome⟩ := outcome_setting hflag value taken lack
    rw [Argument.split, hf, houtcome, ih]
  | @word text args taken lack htext _ ih =>
    have hnone := ofArgument?_eq_none htext
    rw [outcome_word, ← ih]
    cases args with
    | nil => simp [Argument.split, hnone, Except.map]
    | cons b rest => rw [Argument.split, hnone]

end From

/-! ## What is read -/

theorem filterMap_value? (taken : List Taken) (flag : Flag) :
    (taken.filterMap argument?).filterMap (Argument.value? flag) = values taken flag.spellings := by
  rw [List.filterMap_filterMap, values]
  refine List.filterMap_congr fun t _ => ?_
  cases t with
  | setting text value =>
    rw [argument?, valueOf?, ← if_congr Flag.ofArgument?_eq_some_iff rfl rfl]
    cases Flag.ofArgument? text with
    | none => rfl
    | some f => simp [Argument.value?]
  | word text =>
    rw [argument?, valueOf?]
    split <;> rfl

theorem filterMap_forwarded? (taken : List Taken) :
    (taken.filterMap argument?).filterMap Argument.forwarded? = handedOn taken := by
  rw [List.filterMap_filterMap, handedOn]
  refine List.filterMap_congr fun t _ => ?_
  cases t with
  | setting text value =>
    rw [argument?, handedOn?]
    cases Flag.ofArgument? text <;> rfl
  | word text =>
    rw [argument?, handedOn?]
    split <;> rfl

end Taken

namespace Arguments

open Taken (From)

/-- The name parts what is handed on in front of the first dash. -/
theorem exists_withName (name : String) (words : List String) :
    ∃ front back, withName name words = front ++ ["-name", name] ++ back ∧ front ++ back = words ∧
      (∀ w ∈ front, isDashed w = false) ∧ ∀ w ∈ back.head?, isDashed w = true := by
  refine ⟨words.takeWhile (!isDashed ·), words.dropWhile (!isDashed ·), rfl,
    List.takeWhile_append_dropWhile, fun w hw => ?_, fun w hw => ?_⟩
  · simpa using List.mem_takeWhile_imp hw
  · have hhead := List.head?_dropWhile_not (!isDashed ·) words
    rw [Option.mem_def.1 hw] at hhead
    simpa using hhead

theorem says_ofSplit (freshName : String) (taken : List Taken) :
    (ofSplit freshName (taken.filterMap Taken.argument?)).Says freshName taken := by
  have hlast : ∀ flag default,
      ((taken.filterMap Taken.argument?).filterMap (Argument.value? flag)).getLast?.getD default =
        Taken.last taken flag.spellings default := fun flag default => by
    rw [Taken.filterMap_value?, Taken.last]
  obtain ⟨front, back, hname, hwords, hfront, hback⟩ :=
    exists_withName (ofSplit freshName (taken.filterMap Taken.argument?)).name
      ((taken.filterMap Taken.argument?).filterMap Argument.forwarded?)
  rw [Taken.filterMap_forwarded?] at hwords
  exact {
    name := hlast .name freshName
    forwarded := ⟨front, back, hname, hwords, hfront, hback⟩
    volumes := Taken.filterMap_value? taken .volume
    image := hlast .image defaultImage
    cpus := hlast .cpus defaultCpus
    memory := hlast .memory defaultMemory
    configPath := hlast .config defaultConfigPath }

/-- Arguments can be taken apart in one way.  A flag that stands last is missing its value, and otherwise
nothing is lost: each setting has the last value that was given for it, the volumes are all that were
given, and the other words are handed on in their order, with the name in front of the first dash. -/
theorem parse_tells_taken (freshName : String) (args : List String) :
    ∃ taken lack, From args taken lack ∧
      (∀ taken' lack', From args taken' lack' → taken' = taken ∧ lack' = lack) ∧
      (∀ flag, parse freshName args = .error ⟨flag⟩ ↔ lack = some flag) ∧
      (lack = none → ∃ a, parse freshName args = .ok a ∧ a.Says freshName taken) := by
  obtain ⟨taken, lack, hfrom⟩ := From.exists_from args
  have hparse : parse freshName args = (Taken.outcome taken lack).map (ofSplit freshName) := by
    rw [parse, hfrom.split_eq]
  refine ⟨taken, lack, hfrom, fun _ _ h' => hfrom.unique h', fun flag => ?_, fun hlack => ?_⟩
  · rw [hparse]
    cases lack <;> simp [Taken.outcome, Except.map]
  · subst hlack
    exact ⟨_, hparse, says_ofSplit freshName taken⟩

/-- A value may look like a flag, and a word that names the launch is dropped wherever it stands. -/
example : parse "calm-river" ["kuberun", "hello", "-v", "-name", "-resume", "run", "-pod-image", "i"] =
    .ok
      { name := "calm-river"
        forwarded := ["hello", "-name", "calm-river", "-resume"]
        volumes := ["-name"]
        image := "i"
        cpus := defaultCpus
        memory := defaultMemory
        configPath := defaultConfigPath } := rfl

end Arguments
end HeadJob
