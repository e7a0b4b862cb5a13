import Mathlib.Data.List.Induction
import Mathlib.Order.Bounds.Defs
import HeadJob.Launch.Environment

/-!
The environment of the head container, told by the variables of the process in any order.

Variables are brought into one order before they are set, so it makes no difference in which order the
process has them.  Setting them in this order keeps the names behind the defaults in strictly increasing
order and leaves each name with the greatest of its values.
-/

namespace HeadJob
namespace Environment

variable {a b c : String × String} {vars vars' : List (String × String)}

/-! ## The order of variables -/

theorem inOrder_iff : inOrder a b = true ↔ a.1 < b.1 ∨ a.1 = b.1 ∧ a.2 ≤ b.2 := by
  rw [inOrder, Bool.or_eq_true, Bool.and_eq_true, decide_eq_true_eq, beq_iff_eq, decide_eq_true_eq]

theorem inOrder_total (a b : String × String) : (inOrder a b || inOrder b a) = true := by
  rw [Bool.or_eq_true, inOrder_iff, inOrder_iff]
  by_cases hname : a.1 = b.1
  · rw [hname]
    exact (String.le_total a.2 b.2).imp (fun h => .inr ⟨rfl, h⟩) fun h => .inr ⟨rfl, h⟩
  · rcases String.le_total a.1 b.1 with h | h
    · exact .inl (.inl (Std.lt_of_le_of_ne h hname))
    · exact .inr (.inl (Std.lt_of_le_of_ne h (Ne.symm hname)))

theorem inOrder_trans (a b c : String × String) (hab : inOrder a b = true)
    (hbc : inOrder b c = true) : inOrder a c = true := by
  rw [inOrder_iff] at hab hbc ⊢
  rcases hab with hab | ⟨hab, hvalue⟩
  · rcases hbc with hbc | ⟨hbc, -⟩
    · exact .inl (String.lt_trans hab hbc)
    · exact .inl (hbc ▸ hab)
  · rcases hbc with hbc | ⟨hbc, hvalue'⟩
    · exact .inl (hab ▸ hbc)
    · exact .inr ⟨hab.trans hbc, String.le_trans hvalue hvalue'⟩

theorem inOrder_antisymm (hab : inOrder a b = true) (hba : inOrder b a = true) : a = b := by
  rw [inOrder_iff] at hab hba
  rcases hab with hab | ⟨hname, hvalue⟩
  · rcases hba with hba | ⟨hname, -⟩
    · exact absurd hba (String.lt_asymm hab)
    · exact absurd (hname ▸ hab) (String.lt_irrefl _)
  · rcases hba with hba | ⟨-, hvalue'⟩
    · exact absurd (hname ▸ hba) (String.lt_irrefl _)
    · exact Prod.ext hname (String.le_antisymm hvalue hvalue')

/-- However variables are given, they are brought into one order. -/
theorem mergeSort_eq_of_perm (h : vars.Perm vars') :
    vars.mergeSort inOrder = vars'.mergeSort inOrder := by
  refine List.Perm.eq_of_pairwise (fun _ _ _ _ => inOrder_antisymm)
    (List.pairwise_mergeSort inOrder_trans inOrder_total vars)
    (List.pairwise_mergeSort inOrder_trans inOrder_total vars') ?_
  exact (List.mergeSort_perm vars _).trans (h.trans (List.mergeSort_perm vars' _).symm)

theorem ofProcess_eq_of_perm (h : vars.Perm vars') : ofProcess vars = ofProcess vars' := by
  rw [ofProcess, ofProcess, mergeSort_eq_of_perm (h.filter _)]

/-! ## What an environment tells -/

/-- The names that are always set, in their places. -/
def firstNames : List String := ["NXF_EXECUTOR", "NXF_ANSI_LOG"]

/-- The other names for Nextflow among variables, each once and in increasing order. -/
structure AreOthers (vars : List (String × String)) (others : List String) : Prop where
  increasing : others.Pairwise (· < ·)
  mem_iff : ∀ name, name ∈ others ↔
    name ∈ vars.map Prod.fst ∧ "NXF_".toList <+: name.toList ∧ name ∉ firstNames

/-- The greatest value that variables give a name, or its default if they give none. -/
def IsValue (vars : List (String × String)) (name value : String) : Prop :=
  IsGreatest {v | (name, v) ∈ vars} value ∨
    (∀ v, (name, v) ∉ vars) ∧
      (name, value) ∈ [("NXF_EXECUTOR", "k8s"), ("NXF_ANSI_LOG", "false")]

/-- An environment holds the names that are always set, then the others, each with its value. -/
structure Tells (vars env : List (String × String)) : Prop where
  names : ∃ others, env.map Prod.fst = firstNames ++ others ∧ AreOthers vars others
  value : ∀ name value, (name, value) ∈ env → IsValue vars name value

/-! ## Setting variables in their order -/

section

variable {seen : List (String × String)} {v : String × String}

/-- A name that is not smaller than any before comes last, if it is new. -/
theorem AreOthers.concat {others : List String} (h : AreOthers seen others)
    (hpassed : "NXF_".toList <+: v.1.toList) (hlast : ∀ u ∈ seen, inOrder u v = true) :
    AreOthers (seen ++ [v])
      (if v.1 ∈ firstNames ++ others then others else others ++ [v.1]) := by
  have hmem : ∀ name,
      name ∈ (seen ++ [v]).map Prod.fst ↔ name ∈ seen.map Prod.fst ∨ name = v.1 := by
    simp
  split
  · next hv =>
    refine ⟨h.increasing, fun name => ?_⟩
    rw [h.mem_iff, hmem]
    refine ⟨fun ⟨hname, hrest⟩ => ⟨.inl hname, hrest⟩, ?_⟩
    rintro ⟨hname | rfl, hrest⟩
    · exact ⟨hname, hrest⟩
    · exact (h.mem_iff v.1).1 ((List.mem_append.1 hv).resolve_left hrest.2)
  · next hv =>
    rw [List.mem_append, not_or] at hv
    refine ⟨List.pairwise_append.2 ⟨h.increasing, List.pairwise_singleton _ _, ?_⟩, fun name => ?_⟩
    · intro name hname last hlast'
      rw [List.mem_singleton.1 hlast']
      obtain ⟨u, hu, rfl⟩ := List.mem_map.1 ((h.mem_iff name).1 hname).1
      rcases inOrder_iff.1 (hlast u hu) with hlt | ⟨heq, -⟩
      · exact hlt
      · rw [heq] at hname
        exact absurd hname hv.2
    · rw [List.mem_append, List.mem_singleton, h.mem_iff, hmem]
      constructor
      · rintro (⟨hname, hrest⟩ | rfl)
        · exact ⟨.inl hname, hrest⟩
        · exact ⟨.inr rfl, hpassed, hv.1⟩
      · rintro ⟨hname | rfl, hrest⟩
        · exact .inl ⟨hname, hrest⟩
        · exact .inr rfl

/-- The value that comes last is the greatest of its name. -/
theorem isValue_concat (hlast : ∀ u ∈ seen, inOrder u v = true) : IsValue (seen ++ [v]) v.1 v.2 := by
  refine .inl ⟨List.mem_append_right _ (List.mem_singleton.2 rfl), fun w hw => ?_⟩
  rcases List.mem_append.1 hw with hw | hw
  · rcases inOrder_iff.1 (hlast _ hw) with hlt | ⟨-, hle⟩
    · exact absurd hlt (String.lt_irrefl _)
    · exact hle
  · have hvalue : w = v.2 := congrArg Prod.snd (List.mem_singleton.1 hw)
    exact hvalue ▸ String.le_refl w

theorem isValue_congr {name value : String} (h : ∀ w, (name, w) ∈ vars ↔ (name, w) ∈ vars') :
    IsValue vars name value ↔ IsValue vars' name value := by
  simp only [IsValue, h]

theorem Tells.concat {m : OrderedMap String String} (h : Tells seen m.entries)
    (hpassed : "NXF_".toList <+: v.1.toList) (hlast : ∀ u ∈ seen, inOrder u v = true) :
    Tells (seen ++ [v]) (m.insert v.1 v.2).entries := by
  refine ⟨?_, fun name value hvalue => ?_⟩
  · obtain ⟨others, hkeys, hothers⟩ := h.names
    refine ⟨_, ?_, hothers.concat hpassed hlast⟩
    have hinsert := OrderedMap.keys_insert m v.1 v.2
    rw [OrderedMap.keys, OrderedMap.keys, hkeys] at hinsert
    rw [hinsert]
    split
    · rfl
    · exact List.append_assoc _ _ _
  · rw [← OrderedMap.get?_eq_some_iff, OrderedMap.get?_insert] at hvalue
    split at hvalue
    · next hname =>
      cases hvalue
      rw [hname]
      exact isValue_concat hlast
    · next hname =>
      have hseen : ∀ w, (name, w) ∈ seen ++ [v] ↔ (name, w) ∈ seen := by
        intro w
        rw [List.mem_append, List.mem_singleton]
        exact or_iff_left fun hw => hname (congrArg Prod.fst hw)
      exact (isValue_congr hseen).2 (h.value name value (OrderedMap.get?_eq_some_iff.1 hvalue))

end

theorem tells_defaults : Tells [] (OrderedMap.ofList defaults).entries where
  names := ⟨[], rfl, List.Pairwise.nil, by simp⟩
  value := fun name value h => .inr ⟨by simp, h⟩

theorem tells_ofList (hpassed : ∀ v ∈ vars, "NXF_".toList <+: v.1.toList)
    (hordered : vars.Pairwise fun u v => inOrder u v = true) :
    Tells vars (OrderedMap.ofList (defaults ++ vars)).entries := by
  induction vars using List.reverseRecOn with
  | nil =>
    rw [List.append_nil]
    exact tells_defaults
  | append_singleton seen v ih =>
    obtain ⟨hseen, -, hlast⟩ := List.pairwise_append.1 hordered
    rw [← List.append_assoc, OrderedMap.ofList_concat]
    refine Tells.concat (ih (fun u hu => hpassed u (List.mem_append_left _ hu)) hseen) ?_ ?_
    · exact hpassed v (List.mem_append_right _ (List.mem_singleton.2 rfl))
    · exact fun u hu => hlast u hu v (List.mem_singleton.2 rfl)

/-! ## The environment of a process -/

theorem isPassed_iff {name : String} : isPassed name = true ↔ "NXF_".toList <+: name.toList :=
  List.isPrefixOf_iff_prefix

theorem mem_passed_iff {v : String × String} :
    v ∈ (vars.filter fun v => isPassed v.1).mergeSort inOrder ↔
      v ∈ vars ∧ "NXF_".toList <+: v.1.toList := by
  rw [List.mem_mergeSort, List.mem_filter, isPassed_iff]

theorem isPrefix_of_mem_firstNames : ∀ name ∈ firstNames, "NXF_".toList <+: name.toList := by decide

/-- Variables that are not for Nextflow make no difference. -/
theorem tells_ofProcess (vars : List (String × String)) : Tells vars (ofProcess vars) := by
  have hpassed : Tells ((vars.filter fun v => isPassed v.1).mergeSort inOrder) (ofProcess vars) :=
    tells_ofList (fun v hv => (mem_passed_iff.1 hv).2)
      (List.pairwise_mergeSort inOrder_trans inOrder_total _)
  obtain ⟨⟨others, hkeys, hothers⟩, hvalue⟩ := hpassed
  refine ⟨⟨others, hkeys, hothers.increasing, fun name => ?_⟩, fun name value henv => ?_⟩
  · rw [hothers.mem_iff]
    simp only [List.mem_map, mem_passed_iff]
    constructor
    · rintro ⟨⟨v, ⟨hv, -⟩, rfl⟩, hrest⟩
      exact ⟨⟨v, hv, rfl⟩, hrest⟩
    · rintro ⟨⟨v, hv, rfl⟩, hrest⟩
      exact ⟨⟨v, ⟨hv, hrest.1⟩, rfl⟩, hrest⟩
  · have hname : "NXF_".toList <+: name.toList := by
      have hmem := List.mem_map_of_mem (f := Prod.fst) henv
      rw [hkeys, List.mem_append] at hmem
      rcases hmem with hfirst | hother
      · exact isPrefix_of_mem_firstNames name hfirst
      · exact ((hothers.mem_iff name).1 hother).2.1
    refine (isValue_congr fun w => ?_).1 (hvalue name value henv)
    rw [mem_passed_iff, and_iff_left hname]

/-- The environment of the head container is the same in whatever order the process has its variables.
The two names with defaults come first, then all other names for Nextflow in increasing order, and each
name has the greatest of the values that the process has for it. -/
theorem ofProcess_eq_and_tells (h : vars.Perm vars') :
    ofProcess vars = ofProcess vars' ∧ Tells vars (ofProcess vars) :=
  ⟨ofProcess_eq_of_perm h, tells_ofProcess vars⟩

/-- A name given twice, a default that is replaced and a variable of no concern, in two orders. -/
theorem ofProcess_eq_and_tells_of_repeated :
    let vars := [("NXF_VER", "24.04"), ("PATH", "/bin"), ("NXF_EXECUTOR", "local"),
      ("NXF_HOME", "/nxf"), ("NXF_VER", "25.10")]
    vars.Perm vars.reverse ∧ ofProcess vars = ofProcess vars.reverse ∧ Tells vars (ofProcess vars) ∧
      ofProcess vars = [("NXF_EXECUTOR", "local"), ("NXF_ANSI_LOG", "false"), ("NXF_HOME", "/nxf"),
        ("NXF_VER", "25.10")] := by
  intro vars
  have hperm : vars.Perm vars.reverse := (List.reverse_perm vars).symm
  obtain ⟨heq, htells⟩ := ofProcess_eq_and_tells hperm
  refine ⟨hperm, heq, htells, ?_⟩
  -- sorting recurses on lengths, which `decide` does not unfold
  have hsorted : (vars.filter fun v => isPassed v.1).mergeSort inOrder =
      [("NXF_EXECUTOR", "local"), ("NXF_HOME", "/nxf"), ("NXF_VER", "24.04"), ("NXF_VER", "25.10")] :=
    (mergeSort_eq_of_perm (by decide)).trans (List.mergeSort_of_pairwise (by decide))
  rw [ofProcess, hsorted]
  decide

end Environment
end HeadJob
