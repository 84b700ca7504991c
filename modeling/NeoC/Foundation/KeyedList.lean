import Mathlib.Data.Fintype.EquivFin
import Mathlib.Data.List.Find
import Mathlib.Data.Set.Card
import Mathlib.SetTheory.Cardinal.Finite

/-!
# Lists of entries with keys

A list of entries is searched for the first entry whose key is found equal to
a given one.  The comparison is an equivalence on some elements only, and the
results are stated for lists whose keys lie among these.

Two lists of one length are compared by a search in one direction.  This is
an equivalence as soon as the keys of each list are pairwise different,
because a search that meets every entry once meets them all.

A list represents the calls that built it: it has one entry for every class
of keys, with the value of the last call.
-/

namespace NeoC.Foundation.KeyedList

variable {α β κ ν : Type}

/-- A comparison is an equivalence on some elements. -/
structure EquivalentOn (same : α → α → Bool) (members : Set α) : Prop where
  refl : ∀ first ∈ members, same first first = true
  symm : ∀ first ∈ members, ∀ second ∈ members,
    same first second = true → same second first = true
  trans : ∀ first ∈ members, ∀ second ∈ members, ∀ third ∈ members,
    same first second = true → same second third = true →
      same first third = true

/-- Equal elements are equal to the same ones. -/
theorem EquivalentOn.iff_right {same : α → α → Bool} {members : Set α}
    (equivalent : EquivalentOn same members) {first second third : α}
    (inside : first ∈ members) (inside' : second ∈ members)
    (inside'' : third ∈ members) (equal : same second third = true) :
    same first second = true ↔ same first third = true := by
  constructor
  · intro before
    exact equivalent.trans _ inside _ inside' _ inside'' before equal
  · intro before
    exact equivalent.trans _ inside _ inside'' _ inside' before
      (equivalent.symm _ inside' _ inside'' equal)

/-- Every element of a list meets another one, so that all are met. -/
theorem exists_of_covering {meets : α → β → Prop} {firsts : List α}
    {seconds : List β}
    (lengths : firsts.length = seconds.length)
    (covers : ∀ first ∈ firsts, ∃ second ∈ seconds, meets first second)
    (apart : firsts.Pairwise fun first other =>
      ∀ second ∈ seconds, meets first second → ¬ meets other second) :
    ∀ second ∈ seconds, ∃ first ∈ firsts, meets first second := by
  have position (index : Fin firsts.length) :
      ∃ target : Fin firsts.length,
        meets (firsts.get index)
          (seconds.get (target.cast lengths)) := by
    obtain ⟨second, member, met⟩ :=
      covers (firsts.get index) (List.get_mem firsts index)
    obtain ⟨target, rfl⟩ := List.get_of_mem member
    exact ⟨target.cast lengths.symm, met⟩
  choose target met using position
  have injective : Function.Injective target := by
    intro first second same
    by_contra different
    rcases lt_or_gt_of_ne different with before | after
    · refine List.pairwise_iff_get.mp apart first second before _
        (List.get_mem seconds _) (met first) ?_
      rw [same]
      exact met second
    · refine List.pairwise_iff_get.mp apart second first after _
        (List.get_mem seconds _) (met second) ?_
      rw [← same]
      exact met first
  have surjective := Finite.injective_iff_surjective.mp injective
  intro second member
  obtain ⟨index, rfl⟩ := List.get_of_mem member
  obtain ⟨source, reached⟩ := surjective (index.cast lengths.symm)
  refine ⟨firsts.get source, List.get_mem firsts source, ?_⟩
  have hit := met source
  rw [reached] at hit
  exact hit

/-! ## Search -/

section Search

variable (same : κ → κ → Bool)

/-- The value of the first entry whose key is found equal. -/
def lookup (entries : List (κ × ν)) (key : κ) : Option ν :=
  (entries.find? fun entry => same entry.1 key).map Prod.snd

/-- No key is found equal to a later one. -/
def Distinct (entries : List (κ × ν)) : Prop :=
  entries.Pairwise fun entry other => same entry.1 other.1 = false

variable {same} {members : Set κ} {entries : List (κ × ν)} {key : κ}
  {value : ν}

theorem lookup_cons (entry : κ × ν) (entries : List (κ × ν)) (key : κ) :
    lookup same (entry :: entries) key =
      if same entry.1 key then some entry.2
      else lookup same entries key := by
  rw [lookup, List.find?_cons]
  cases same entry.1 key <;> rfl

theorem lookup_append (entries others : List (κ × ν)) (key : κ) :
    lookup same (entries ++ others) key =
      (lookup same entries key).or (lookup same others key) := by
  rw [lookup, lookup, lookup, List.find?_append, Option.map_or]

theorem of_lookup (found : lookup same entries key = some value) :
    ∃ entry ∈ entries, same entry.1 key = true ∧ entry.2 = value := by
  obtain ⟨entry, chosen, rfl⟩ := Option.map_eq_some_iff.mp found
  have matched := List.find?_some chosen
  exact ⟨entry, List.mem_of_find?_eq_some chosen, matched, rfl⟩

theorem lookup_eq_none_iff :
    lookup same entries key = none ↔
      ∀ entry ∈ entries, same entry.1 key = false := by
  rw [lookup, Option.map_eq_none_iff, List.find?_eq_none]
  simp only [Bool.not_eq_true]

/-- Where the keys are different, a match is the first one. -/
theorem lookup_of_match (equivalent : EquivalentOn same members)
    (inside : ∀ entry ∈ entries, entry.1 ∈ members) (member : key ∈ members)
    (distinct : Distinct same entries)
    {entry : κ × ν} (listed : entry ∈ entries)
    (matched : same entry.1 key = true) :
    lookup same entries key = some entry.2 := by
  induction entries with
  | nil => cases listed
  | cons first rest induction =>
      obtain ⟨apart, distinctRest⟩ := List.pairwise_cons.mp distinct
      obtain ⟨firstInside, restInside⟩ := List.forall_mem_cons.mp inside
      rw [lookup_cons]
      split
      · rename_i early
        rcases List.mem_cons.mp listed with rfl | later
        · rfl
        · have back :=
            equivalent.symm _ (restInside entry later) _ member matched
          have equal :=
            equivalent.trans _ firstInside _ member _
              (restInside entry later) early back
          rw [apart entry later] at equal
          cases equal
      · rename_i early
        rcases List.mem_cons.mp listed with rfl | later
        · exact absurd matched early
        · exact induction restInside distinctRest later

end Search

/-! ## Comparison -/

section Comparison

variable (same : κ → κ → Bool) (sameValue : ν → ν → Bool)

/-- Every entry is found in the other list, with an equal value. -/
def within (entries others : List (κ × ν)) : Bool :=
  entries.all fun entry =>
    (lookup same others entry.1).any (sameValue entry.2)

variable {same sameValue} {members : Set κ} {values : Set ν}
  {entries others further : List (κ × ν)}

/-- The keys and the values of a list lie among those that are compared. -/
structure Inside (members : Set κ) (values : Set ν)
    (entries : List (κ × ν)) : Prop where
  key : ∀ entry ∈ entries, entry.1 ∈ members
  value : ∀ entry ∈ entries, entry.2 ∈ values

theorem within_iff (equivalent : EquivalentOn same members)
    (inside : ∀ entry ∈ entries, entry.1 ∈ members)
    (inside' : ∀ entry ∈ others, entry.1 ∈ members)
    (distinct : Distinct same others) :
    within same sameValue entries others = true ↔
      ∀ entry ∈ entries, ∃ other ∈ others,
        same other.1 entry.1 = true ∧
          sameValue entry.2 other.2 = true := by
  rw [within, List.all_eq_true]
  refine forall₂_congr fun entry listed => ?_
  constructor
  · intro found
    obtain ⟨value, chosen, equal⟩ := (Option.any_eq_true _ _).mp found
    obtain ⟨other, listed', matched, rfl⟩ := of_lookup chosen
    exact ⟨other, listed', matched, equal⟩
  · rintro ⟨other, listed', matched, equal⟩
    rw [lookup_of_match equivalent inside' (inside entry listed) distinct
      listed' matched]
    exact equal

variable (equivalent : EquivalentOn same members)
  (equivalentValues : EquivalentOn sameValue values)

include equivalent equivalentValues

theorem within_symm (inside : Inside members values entries)
    (inside' : Inside members values others)
    (distinct : Distinct same entries) (distinct' : Distinct same others)
    (lengths : entries.length = others.length)
    (found : within same sameValue entries others = true) :
    within same sameValue others entries = true := by
  rw [within_iff equivalent inside.key inside'.key distinct'] at found
  rw [within_iff equivalent inside'.key inside.key distinct]
  have apart : entries.Pairwise fun first second =>
      ∀ other ∈ others,
        same other.1 first.1 = true ∧ sameValue first.2 other.2 = true →
          ¬ (same other.1 second.1 = true ∧
            sameValue second.2 other.2 = true) := by
    apply distinct.imp_of_mem
    rintro first second listed listed' different other member
      ⟨matched, -⟩ ⟨matched', -⟩
    have back :=
      equivalent.symm _ (inside'.key other member) _
        (inside.key first listed) matched
    have equal :=
      equivalent.trans _ (inside.key first listed) _
        (inside'.key other member) _ (inside.key second listed') back matched'
    rw [different] at equal
    cases equal
  intro other listed'
  obtain ⟨entry, listed, matched, equal⟩ :=
    exists_of_covering lengths found apart other listed'
  exact ⟨entry, listed,
    equivalent.symm _ (inside'.key other listed') _
      (inside.key entry listed) matched,
    equivalentValues.symm _ (inside.value entry listed) _
      (inside'.value other listed') equal⟩

theorem within_trans (inside : Inside members values entries)
    (inside' : Inside members values others)
    (inside'' : Inside members values further)
    (distinct : Distinct same others) (distinct' : Distinct same further)
    (found : within same sameValue entries others = true)
    (found' : within same sameValue others further = true) :
    within same sameValue entries further = true := by
  rw [within_iff equivalent inside.key inside'.key distinct] at found
  rw [within_iff equivalent inside'.key inside''.key distinct'] at found'
  rw [within_iff equivalent inside.key inside''.key distinct']
  intro entry listed
  obtain ⟨other, listed', matched, equal⟩ := found entry listed
  obtain ⟨last, listed'', matched', equal'⟩ := found' other listed'
  exact ⟨last, listed'',
    equivalent.trans _ (inside''.key last listed'') _
      (inside'.key other listed') _ (inside.key entry listed) matched'
      matched,
    equivalentValues.trans _ (inside.value entry listed) _
      (inside'.value other listed') _ (inside''.value last listed'') equal
      equal'⟩

end Comparison

/-! ## Calls that set a value -/

section Calls

variable (same : κ → κ → Bool)

/-- The value of the last call whose key is found equal. -/
def lastValue (calls : List (κ × ν)) (key : κ) : Option ν :=
  lookup same calls.reverse key

/-- The keys of the calls, in classes of equal ones. -/
def keyClasses (calls : List (κ × ν)) : Set (Set κ) :=
  {keys | ∃ call ∈ calls,
    keys = {key | key ∈ calls.map Prod.fst ∧ same key call.1 = true}}

/-- The entries are what the calls set. -/
structure Represents (calls entries : List (κ × ν)) : Prop where
  distinct : Distinct same entries
  used : ∀ entry ∈ entries, entry.1 ∈ calls.map Prod.fst
  last : ∀ entry ∈ entries, lastValue same calls entry.1 = some entry.2
  covered : ∀ call ∈ calls, ∃ entry ∈ entries, same entry.1 call.1 = true

theorem represents_nil : Represents same ([] : List (κ × ν)) [] := by
  refine ⟨List.Pairwise.nil, ?_, ?_, ?_⟩
  · intro entry listed
    cases listed
  · intro entry listed
    cases listed
  · intro call listed
    cases listed

variable {same} {members : Set κ} {calls entries : List (κ × ν)} {key : κ}
  {value : ν}

theorem lastValue_append (calls : List (κ × ν)) (call : κ × ν) (key : κ) :
    lastValue same (calls ++ [call]) key =
      if same call.1 key then some call.2
      else lastValue same calls key := by
  rw [lastValue, List.reverse_concat, lookup_cons]
  rfl

/-- Calls with equal keys are alike. -/
theorem lastValue_congr {same' : κ → κ → Bool} {key' : κ}
    (agree : ∀ call ∈ calls, same call.1 key = same' call.1 key') :
    lastValue same calls key = lastValue same' calls key' := by
  rw [lastValue, lastValue, lookup, lookup]
  congr 1
  apply List.find?_congr
  intro call listed
  exact agree call (List.mem_reverse.mp listed)

/-- Only the comparisons between keys of the calls matter. -/
theorem Represents.congr {same' : κ → κ → Bool}
    (represents : Represents same calls entries)
    (agree : ∀ first ∈ calls.map Prod.fst, ∀ second ∈ calls.map Prod.fst,
      same first second = same' first second) :
    Represents same' calls entries := by
  refine ⟨?_, represents.used, ?_, ?_⟩
  · apply represents.distinct.imp_of_mem
    intro entry other listed listed' different
    rw [← agree _ (represents.used entry listed) _
      (represents.used other listed'), different]
  · intro entry listed
    rw [← represents.last entry listed]
    apply lastValue_congr
    intro call called
    rw [agree _ (List.mem_map_of_mem called) _
      (represents.used entry listed)]
  · intro call called
    obtain ⟨entry, listed, matched⟩ := represents.covered call called
    refine ⟨entry, listed, ?_⟩
    rw [← agree _ (represents.used entry listed) _
      (List.mem_map_of_mem called), matched]

theorem Represents.key_mem (represents : Represents same calls entries)
    (inside : ∀ call ∈ calls, call.1 ∈ members) :
    ∀ entry ∈ entries, entry.1 ∈ members := by
  intro entry listed
  obtain ⟨call, called, same⟩ := List.mem_map.mp
    (represents.used entry listed)
  rw [← same]
  exact inside call called

section Equivalent

variable (equivalent : EquivalentOn same members)
  (inside : ∀ call ∈ calls, call.1 ∈ members)
  (represents : Represents same calls entries)

include equivalent inside represents

/-- Entries with equal keys stand in one place. -/
theorem Represents.index_unique {first second : Nat} {entry other : κ × ν}
    (found : entries[first]? = some entry)
    (found' : entries[second]? = some other)
    (matched : same entry.1 other.1 = true) :
    first = second := by
  have keys := represents.key_mem inside
  have listed := List.mem_of_getElem? found
  have listed' := List.mem_of_getElem? found'
  obtain ⟨bound, rfl⟩ := List.getElem?_eq_some_iff.mp found
  obtain ⟨bound', rfl⟩ := List.getElem?_eq_some_iff.mp found'
  rcases Nat.lt_trichotomy first second with before | equal | after
  · have different := List.pairwise_iff_getElem.mp represents.distinct
      first second bound bound' before
    rw [matched] at different
    cases different
  · exact equal
  · have back := equivalent.symm _ (keys _ listed) _ (keys _ listed') matched
    have different := List.pairwise_iff_getElem.mp represents.distinct
      second first bound' bound after
    rw [back] at different
    cases different

/-- The search finds the value of the last call. -/
theorem Represents.lookup_eq (member : key ∈ members) :
    lookup same entries key = lastValue same calls key := by
  have keys := represents.key_mem inside
  by_cases found : ∃ entry ∈ entries, same entry.1 key = true
  · obtain ⟨entry, listed, matched⟩ := found
    rw [lookup_of_match equivalent keys member represents.distinct listed
      matched, ← represents.last entry listed]
    apply lastValue_congr
    intro call called
    exact Bool.eq_iff_iff.mpr
      (equivalent.iff_right (inside call called) (keys entry listed) member
        matched)
  · have absent : lookup same entries key = none := by
      rw [lookup_eq_none_iff]
      intro entry listed
      apply Bool.eq_false_of_not_eq_true
      intro matched
      exact found ⟨entry, listed, matched⟩
    rw [absent, lastValue, eq_comm, lookup_eq_none_iff]
    intro call called
    apply Bool.eq_false_of_not_eq_true
    intro equal
    have called := List.mem_reverse.mp called
    obtain ⟨entry, listed, matched⟩ := represents.covered call called
    exact found ⟨entry, listed,
      equivalent.trans _ (keys entry listed) _ (inside call called) _ member
        matched equal⟩

/-- A call with a new key adds an entry. -/
theorem Represents.append (member : key ∈ members)
    (absent : ∀ entry ∈ entries, same entry.1 key = false) :
    Represents same (calls ++ [(key, value)])
      (entries ++ [(key, value)]) := by
  have keys := represents.key_mem inside
  refine ⟨?_, ?_, ?_, ?_⟩
  · refine List.pairwise_append.mpr
      ⟨represents.distinct, List.pairwise_singleton _ _, ?_⟩
    intro entry listed other single
    rw [List.mem_singleton.mp single]
    exact absent entry listed
  · intro entry listed
    rw [List.map_append, List.mem_append]
    rcases List.mem_append.mp listed with before | new
    · exact Or.inl (represents.used entry before)
    · rw [List.mem_singleton.mp new]
      exact Or.inr List.mem_cons_self
  · intro entry listed
    rw [lastValue_append]
    rcases List.mem_append.mp listed with before | new
    · rw [if_neg, represents.last entry before]
      intro equal
      have back := equivalent.symm _ member _ (keys entry before) equal
      rw [absent entry before] at back
      cases back
    · rw [List.mem_singleton.mp new, if_pos (equivalent.refl key member)]
  · intro call called
    rcases List.mem_append.mp called with before | new
    · obtain ⟨entry, listed, matched⟩ := represents.covered call before
      exact ⟨entry, List.mem_append_left _ listed, matched⟩
    · rw [List.mem_singleton.mp new]
      exact ⟨(key, value), List.mem_append_right _ List.mem_cons_self,
        equivalent.refl key member⟩

/-- A call with a known key changes one value. -/
theorem Represents.replace (member : key ∈ members) {index : Nat}
    {entry : κ × ν} (found : entries[index]? = some entry)
    (matched : same entry.1 key = true) :
    Represents same (calls ++ [(key, value)])
      (entries.modify index fun entry => (entry.1, value)) := by
  have keys := represents.key_mem inside
  have back := equivalent.symm _ (keys entry (List.mem_of_getElem? found)) _
    member matched
  -- An entry of the changed list stands where one of the old list stood.
  have before {position : Nat} {changed : κ × ν}
      (there : (entries.modify index
        fun entry => (entry.1, value))[position]? = some changed) :
      ∃ other, entries[position]? = some other ∧
        changed =
          (other.1, if index = position then value else other.2) := by
    rw [List.getElem?_modify] at there
    obtain ⟨other, stood, rfl⟩ := Option.map_eq_some_iff.mp there
    refine ⟨other, stood, ?_⟩
    split <;> rfl
  refine ⟨?_, ?_, ?_, ?_⟩
  · rw [Distinct, List.pairwise_iff_getElem]
    intro first second bound bound' earlier
    obtain ⟨other, stood, changed⟩ :=
      before (List.getElem?_eq_getElem bound)
    obtain ⟨other', stood', changed'⟩ :=
      before (List.getElem?_eq_getElem bound')
    rw [changed, changed']
    apply Bool.eq_false_of_not_eq_true
    intro equal
    have unique := represents.index_unique equivalent inside stood stood'
      equal
    omega
  · intro changed listed
    obtain ⟨position, there⟩ := List.mem_iff_getElem?.mp listed
    obtain ⟨other, stood, rfl⟩ := before there
    rw [List.map_append, List.mem_append]
    exact Or.inl (represents.used other (List.mem_of_getElem? stood))
  · intro changed listed
    obtain ⟨position, there⟩ := List.mem_iff_getElem?.mp listed
    obtain ⟨other, stood, rfl⟩ := before there
    have otherInside := keys other (List.mem_of_getElem? stood)
    have atIndex : same key other.1 = true ↔ index = position := by
      constructor
      · intro equal
        have forward := equivalent.trans _
          (keys entry (List.mem_of_getElem? found)) _ member _ otherInside
          matched equal
        exact represents.index_unique equivalent inside found stood forward
      · rintro rfl
        rw [found] at stood
        cases stood
        exact back
    rw [lastValue_append]
    dsimp only
    by_cases equal : index = position
    · rw [if_pos (atIndex.mpr equal), if_pos equal]
    · rw [if_neg (mt atIndex.mp equal), if_neg equal]
      exact represents.last other (List.mem_of_getElem? stood)
  · intro call called
    have kept {other : κ × ν} (listed : other ∈ entries) :
        ∃ changed ∈ entries.modify index
          (fun entry => (entry.1, value)), changed.1 = other.1 := by
      obtain ⟨position, stood⟩ := List.mem_iff_getElem?.mp listed
      refine ⟨(if index = position then (other.1, value) else other),
        List.mem_iff_getElem?.mpr ⟨position, ?_⟩, ?_⟩
      · rw [List.getElem?_modify, stood]
        rfl
      · split <;> rfl
    rcases List.mem_append.mp called with earlier | new
    · obtain ⟨other, listed, equal⟩ := represents.covered call earlier
      obtain ⟨changed, listed', same⟩ := kept listed
      refine ⟨changed, listed', ?_⟩
      rw [same]
      exact equal
    · rw [List.mem_singleton.mp new]
      obtain ⟨changed, listed', same⟩ := kept (List.mem_of_getElem? found)
      refine ⟨changed, listed', ?_⟩
      rw [same]
      exact matched

/-- There is an entry for every class of keys. -/
theorem Represents.length_eq :
    entries.length = (keyClasses same calls).ncard := by
  have keys := represents.key_mem inside
  let classOf (key : κ) : Set κ :=
    {other | other ∈ calls.map Prod.fst ∧ same other key = true}
  have injective : Function.Injective
      fun index : Fin entries.length => classOf (entries.get index).1 := by
    intro first second equal
    have listed := List.get_mem entries first
    have member : (entries.get first).1 ∈ classOf (entries.get first).1 :=
      ⟨represents.used _ listed, equivalent.refl _ (keys _ listed)⟩
    dsimp only at equal
    rw [equal] at member
    apply Fin.ext
    exact represents.index_unique equivalent inside
      (List.getElem?_eq_getElem first.isLt)
      (List.getElem?_eq_getElem second.isLt) member.2
  have range : keyClasses same calls =
      Set.range
        fun index : Fin entries.length =>
          classOf (entries.get index).1 := by
    ext keys'
    constructor
    · rintro ⟨call, called, rfl⟩
      obtain ⟨entry, listed, matched⟩ := represents.covered call called
      obtain ⟨index, rfl⟩ := List.get_of_mem listed
      refine ⟨index, ?_⟩
      ext other
      apply and_congr_right
      intro used
      obtain ⟨call', called', rfl⟩ := List.mem_map.mp used
      exact equivalent.iff_right (inside call' called') (keys _ listed)
        (inside call called) matched
    · rintro ⟨index, rfl⟩
      obtain ⟨call, called, same⟩ := List.mem_map.mp
        (represents.used _ (List.get_mem entries index))
      refine ⟨call, called, ?_⟩
      dsimp only
      rw [← same]
  rw [range, Set.ncard_range_of_injective injective, Nat.card_fin]

end Equivalent

end Calls

end NeoC.Foundation.KeyedList
