import Mathlib.Data.List.Pairwise
import EgoChain.Foundations.Lists

/-!
# Batches of transactions

`schedule_batch` puts the transactions of a batch into groups, and `execute_batch` runs the groups in
order, each in parallel.  A pass over the transactions that have no group takes each that has no
conflict with those it took before.  So a transaction can overtake one in conflict with it that the
pass left.  It does so exactly if the one it overtakes stands between it and another one of its group,
and is in conflict with both.
-/

namespace EgoChain.Vm

open List

structure AccessSet where
  reads : Finset String
  writes : Finset String

namespace AccessSet

variable (set other : AccessSet)

def conflictsWith : Prop :=
  (set.writes ∩ other.writes).Nonempty ∨ (set.reads ∩ other.writes).Nonempty ∨
    (set.writes ∩ other.reads).Nonempty

instance : Decidable (set.conflictsWith other) := inferInstanceAs (Decidable (_ ∨ _ ∨ _))

def extend : AccessSet := ⟨set.reads ∪ other.reads, set.writes ∪ other.writes⟩

end AccessSet

abbrev Store (Value : Type) := String → Value

/-- A transaction that touches nothing but its access set. -/
structure PendingTx (Value : Type) where
  access : AccessSet
  call : Store Value → Store Value
  frame : ∀ store key, key ∉ access.writes → call store key = store key
  depends : ∀ store other, (∀ key ∈ access.reads ∪ access.writes, store key = other key) →
    ∀ key ∈ access.writes, call store key = call other key

variable {Value : Type}

instance : Inhabited (PendingTx Value) := ⟨⟨∅, ∅⟩, id, fun _ _ _ => rfl, nofun⟩

section Schedule

variable (txs : List (PendingTx Value))

def access (i : Nat) : AccessSet := (txs.getD i default).access

def call (store : Store Value) (i : Nat) : Store Value := (txs.getD i default).call store

def Apart (i k : Nat) : Prop := ¬ (access txs i).conflictsWith (access txs k)

/-- One pass over the transactions that have no group: those it takes and those it leaves. -/
def pass : AccessSet → List Nat → List Nat × List Nat
  | _, [] => ([], [])
  | groupAccess, i :: rest =>
    if groupAccess.conflictsWith (access txs i) then (pass groupAccess rest).map id (i :: ·)
    else (pass (groupAccess.extend (access txs i)) rest).map (i :: ·) id

def passes : Nat → List Nat → List (List Nat)
  | 0, _ => []
  | fuel + 1, unassigned =>
    if unassigned = [] then [] else
      let (group, left) := pass txs ⟨∅, ∅⟩ unassigned
      if group = [] then passes fuel left else group :: passes fuel left

/-- Every pass finds a group, so there are no more passes than transactions. -/
def scheduleBatch : List (List Nat) := passes txs txs.length (range txs.length)

/-- No transaction between two of a group is in conflict with both. -/
def NoneBetween (groups : List (List Nat)) : Prop :=
  ∀ group ∈ groups, ∀ i ∈ group, ∀ k ∈ group, ∀ j, i < j → j < k → ¬ Apart txs i j → Apart txs j k

/-- No transaction runs before a smaller one that it is in conflict with. -/
def InOrder (earlier later : List Nat) : Prop := ∀ k ∈ earlier, ∀ j ∈ later, j < k → Apart txs j k

/-- Every transaction has one group, and no two of a group are in conflict. -/
structure Grouped (unassigned : List Nat) (groups : List (List Nat)) : Prop where
  all : groups.flatten.Perm unassigned
  apart : ∀ group ∈ groups, group.Pairwise (Apart txs)

/-- Of two in conflict the smaller has the earlier group, and the groups, each in any order, leave the
store that the transactions leave one by one. -/
structure Sequential (unassigned : List Nat) (groups : List (List Nat)) : Prop where
  inOrder : groups.Pairwise (InOrder txs)
  runs : ∀ orders store, Forall₂ Perm orders groups →
    orders.flatten.foldl (call txs) store = unassigned.foldl (call txs) store

end Schedule

/-! ## Conflicts -/

namespace AccessSet

variable {set other third : AccessSet}

theorem conflictsWith_comm : set.conflictsWith other ↔ other.conflictsWith set := by
  simp only [conflictsWith, Finset.inter_comm]
  tauto

theorem conflictsWith_extend : (set.extend other).conflictsWith third ↔
    set.conflictsWith third ∨ other.conflictsWith third := by
  simp only [conflictsWith, extend, Finset.union_inter_distrib_right, Finset.union_nonempty]
  tauto

theorem not_conflictsWith_empty : ¬ AccessSet.conflictsWith ⟨∅, ∅⟩ set := by simp [conflictsWith]

theorem notMem_writes (apart : ¬ set.conflictsWith other) :
    ∀ key ∈ set.reads ∪ set.writes, key ∉ other.writes := by
  intro key mem written
  rcases Finset.mem_union.mp mem with isRead | isWritten
  · exact apart (Or.inr (Or.inl ⟨key, Finset.mem_inter.mpr ⟨isRead, written⟩⟩))
  · exact apart (Or.inl ⟨key, Finset.mem_inter.mpr ⟨isWritten, written⟩⟩)

end AccessSet

open AccessSet

variable {txs : List (PendingTx Value)} {groupAccess : AccessSet} {unassigned : List Nat}

instance : Std.Symm (Apart txs) := ⟨fun _ _ => conflictsWith_comm.not.mp⟩

theorem Apart.call_comm {i k : Nat} (apart : Apart txs i k) (store : Store Value) :
    call txs (call txs store i) k = call txs (call txs store k) i := by
  have ahead := notMem_writes apart
  have behind := notMem_writes (Std.Symm.symm _ _ apart)
  unfold access call at *
  generalize txs.getD i default = one, txs.getD k default = two at *
  funext key
  by_cases mine : key ∈ one.access.writes
  · rw [two.frame _ _ (ahead key (Finset.mem_union_right _ mine))]
    exact one.depends _ _ (fun key mem => (two.frame _ _ (ahead key mem)).symm) key mine
  · rw [one.frame _ _ mine]
    by_cases theirs : key ∈ two.access.writes
    · exact two.depends _ _ (fun key mem => one.frame _ _ (behind key mem)) key theirs
    · rw [two.frame _ _ theirs, two.frame _ _ theirs, one.frame _ _ mine]

/-! ## Passes -/

/-- What a pass does with the transactions that have no group. -/
structure Parted (txs : List (PendingTx Value)) (groupAccess : AccessSet) (unassigned : List Nat)
    (parts : List Nat × List Nat) : Prop where
  all : (parts.1 ++ parts.2).Perm unassigned
  left : parts.2.Sublist unassigned
  free : ∀ k ∈ parts.1, ¬ groupAccess.conflictsWith (access txs k)
  apart : parts.1.Pairwise (Apart txs)
  blocked : ∀ j ∈ parts.2, groupAccess.conflictsWith (access txs j) ∨
    ∃ i ∈ parts.1, i < j ∧ ¬ Apart txs i j

theorem parted_pass (sorted : unassigned.Pairwise (· < ·)) :
    Parted txs groupAccess unassigned (pass txs groupAccess unassigned) := by
  induction sorted generalizing groupAccess with
  | nil => exact ⟨Perm.nil, Sublist.slnil, nofun, Pairwise.nil, nofun⟩
  | @cons i rest first _ ih =>
    rw [pass]
    split
    case isTrue kept =>
      obtain ⟨all, left, free, apart, blocked⟩ := @ih groupAccess
      exact ⟨perm_middle.trans (all.cons i), left.cons_cons i, free, apart,
        forall_mem_cons.mpr ⟨Or.inl kept, blocked⟩⟩
    case isFalse fits =>
    obtain ⟨all, left, free, apart, blocked⟩ := @ih (groupAccess.extend (access txs i))
    simp only [conflictsWith_extend, not_or] at free blocked
    refine ⟨all.cons i, left.cons i, forall_mem_cons.mpr ⟨fits, fun k mem => (free k mem).1⟩,
      apart.cons fun k mem => (free k mem).2, fun j mem => ?_⟩
    rcases blocked j mem with (before | own) | ⟨other, taken, smaller, conflict⟩
    · exact Or.inl before
    · exact Or.inr ⟨i, mem_cons_self, first j (left.subset mem), (· own)⟩
    · exact Or.inr ⟨other, mem_cons_of_mem _ taken, smaller, conflict⟩

theorem foldl_call_perm {order group : List Nat} (any : order.Perm group)
    (apart : group.Pairwise (Apart txs)) (store : Store Value) :
    order.foldl (call txs) store = group.foldl (call txs) store := by
  refine any.foldl_eq' (fun i mem k memToo store => ?_) store
  rcases eq_or_ne i k with rfl | other
  · rfl
  · exact (apart.forall (any.subset mem) (any.subset memToo) other).call_comm store

theorem foldl_pass (sorted : unassigned.Pairwise (· < ·))
    (inOrder : InOrder txs (pass txs groupAccess unassigned).1 (pass txs groupAccess unassigned).2)
    (store : Store Value) :
    (pass txs groupAccess unassigned).2.foldl (call txs)
        ((pass txs groupAccess unassigned).1.foldl (call txs) store) =
      unassigned.foldl (call txs) store := by
  induction sorted generalizing groupAccess store with
  | nil => rfl
  | @cons i rest first later ih =>
    by_cases blocked : groupAccess.conflictsWith (access txs i)
    · rw [pass, if_pos blocked] at inOrder ⊢
      have parted := @parted_pass _ txs groupAccess rest later
      have moved := foldl_call_perm (perm_append_singleton i _) (parted.apart.cons fun k mem =>
        inOrder k mem i mem_cons_self (first k (parted.all.subset (mem_append_left _ mem)))) store
      rw [foldl_append] at moved
      exact (congrArg (foldl (call txs) · _) moved).trans
        (ih (fun k mem j left => inOrder k mem j (mem_cons_of_mem _ left)) _)
    · rw [pass, if_neg blocked] at inOrder ⊢
      exact ih (fun k mem => inOrder k (mem_cons_of_mem _ mem)) _

/-- What the passes leave to a later group is in conflict with a smaller transaction of each group
before it. -/
structure Passed (txs : List (PendingTx Value)) (unassigned : List Nat) (groups : List (List Nat)) :
    Prop extends Grouped txs unassigned groups where
  blocked : groups.Pairwise fun earlier later =>
    ∀ j ∈ later, ∃ i ∈ earlier, i < j ∧ ¬ Apart txs i j
  runs : groups.Pairwise (InOrder txs) → ∀ orders store, Forall₂ Perm orders groups →
    orders.flatten.foldl (call txs) store = unassigned.foldl (call txs) store

theorem passed_nil : Passed txs [] [] :=
  ⟨⟨Perm.nil, nofun⟩, Pairwise.nil, fun _ _ _ any => by
    cases any
    rfl⟩

/-- One pass in front of the groups for what it leaves. -/
theorem passed_cons {groups : List (List Nat)} (sorted : unassigned.Pairwise (· < ·))
    (rest : Passed txs (pass txs ⟨∅, ∅⟩ unassigned).2 groups) :
    Passed txs unassigned ((pass txs ⟨∅, ∅⟩ unassigned).1 :: groups) := by
  have parted := @parted_pass _ txs ⟨∅, ∅⟩ unassigned sorted
  refine ⟨⟨(rest.all.append_left _).trans parted.all,
    forall_mem_cons.mpr ⟨parted.apart, rest.apart⟩⟩, rest.blocked.cons fun group mem j inGroup => ?_,
    fun inOrder orders store any => ?_⟩
  · have left := rest.all.subset (mem_flatten.mpr ⟨group, mem, inGroup⟩)
    exact (parted.blocked j left).resolve_left not_conflictsWith_empty
  · obtain ⟨before, inOrder⟩ := pairwise_cons.mp inOrder
    obtain ⟨order, more, first, later, rfl⟩ := forall₂_cons_right_iff.mp any
    have ahead : InOrder txs (pass txs ⟨∅, ∅⟩ unassigned).1 (pass txs ⟨∅, ∅⟩ unassigned).2 := by
      intro k isTaken j left
      obtain ⟨group, mem, inGroup⟩ := mem_flatten.mp (rest.all.symm.subset left)
      exact before group mem k isTaken j inGroup
    rw [flatten_cons, foldl_append, rest.runs inOrder more _ later,
      foldl_call_perm first parted.apart, foldl_pass sorted ahead]

theorem passed_passes {fuel : Nat} (enough : unassigned.length ≤ fuel)
    (sorted : unassigned.Pairwise (· < ·)) :
    Passed txs unassigned (passes txs fuel unassigned) := by
  induction fuel generalizing unassigned with
  | zero =>
    rw [length_eq_zero_iff.mp (Nat.le_zero.mp enough)]
    exact passed_nil
  | succ fuel ih =>
    rw [passes]
    split
    case isTrue none =>
      rw [none]
      exact passed_nil
    case isFalse some =>
    -- A pass takes the first transaction, so fewer are left.
    obtain ⟨i, others, rfl⟩ := exists_cons_of_ne_nil some
    have taken : (pass txs ⟨∅, ∅⟩ (i :: others)).1 ≠ [] := by
      rw [pass, if_neg not_conflictsWith_empty]
      exact cons_ne_nil _ _
    have parted := @parted_pass _ txs ⟨∅, ∅⟩ (i :: others) sorted
    have count := parted.all.length_eq
    have positive := length_pos_of_ne_nil taken
    rw [length_append] at count
    dsimp only
    rw [if_neg taken]
    exact passed_cons sorted (ih (by omega) (sorted.sublist parted.left))

/-- A transaction that is overtaken was left because of a smaller one of the group, and so stands
between two of the group. -/
theorem Passed.inOrder_iff {groups : List (List Nat)} (passed : Passed txs unassigned groups)
    (whole : ∀ {j k}, k ∈ unassigned → j < k → j ∈ unassigned) :
    groups.Pairwise (InOrder txs) ↔ NoneBetween txs groups := by
  constructor
  · intro inOrder group mem i first k last j above below conflict
    have known := whole (passed.all.subset (mem_flatten.mpr ⟨group, mem, last⟩)) below
    obtain ⟨own, memToo, inOwn⟩ := mem_flatten.mp (passed.all.symm.subset known)
    rcases eq_or_ne group own with rfl | other
    · exact (passed.apart group mem).forall inOwn last below.ne
    have either := inOrder.imp fun {earlier later} before =>
      (Or.inl before : InOrder txs earlier later ∨ InOrder txs later earlier)
    have : Std.Symm fun earlier later => InOrder txs earlier later ∨ InOrder txs later earlier :=
      ⟨fun _ _ => Or.symm⟩
    rcases either.forall mem memToo other with before | after
    · exact before k last j inOwn below
    · exact absurd (after j inOwn i first above) conflict
  · intro none
    refine passed.blocked.imp_of_mem fun {earlier later} mem _ blocked k taken j left overtaken => ?_
    obtain ⟨i, first, smaller, conflict⟩ := blocked j left
    exact none earlier mem i first k taken j smaller overtaken conflict

/-- Writes a number to each of some keys. -/
def stamp (number : Nat) (writes : Finset String) : PendingTx Nat where
  access := ⟨∅, writes⟩
  call store key := if key ∈ writes then number else store key
  frame _ _ outside := if_neg outside
  depends _ _ _ _ mem := (if_pos mem).trans (if_pos mem).symm

def crossed : List (PendingTx Nat) := [stamp 0 {"A"}, stamp 1 {"A", "B"}, stamp 2 {"B"}]

end EgoChain.Vm
