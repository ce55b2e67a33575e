import EgoChain.Foundations.Lists

/-!
# Hash trees

A layer of digests is joined in pairs, the last digest with itself if it has no
partner, and so on until one digest is left.  If no two of the pairs that are
joined on the way give the same digest, and no digest stands in the first layer
twice, then the last digest tells the first layer, or the layers are not of the
same level.
-/

namespace EgoChain.Foundations

open List

variable {α : Type}

/-- Neighbours, from the front. -/
def pairsOf : List α → List (α × α)
  | [] => []
  | [last] => [(last, last)]
  | first :: second :: rest => (first, second) :: pairsOf rest

variable {layer other : List α} {digest : α} {pair : α × α}

theorem mem_of_mem_pairsOf (mem : pair ∈ pairsOf layer) : pair.1 ∈ layer ∧ pair.2 ∈ layer := by
  induction layer using pairsOf.induct with
  | case1 => cases mem
  | case2 last =>
    rw [pairsOf, mem_singleton] at mem
    simp [mem]
  | case3 first second rest ih =>
    rcases mem_cons.mp mem with rfl | later
    · simp
    · obtain ⟨one, two⟩ := ih later
      simp [one, two]

theorem exists_mem_pairsOf (mem : digest ∈ layer) :
    ∃ pair ∈ pairsOf layer, digest = pair.1 ∨ digest = pair.2 := by
  induction layer using pairsOf.induct with
  | case1 => cases mem
  | case2 last => exact ⟨(last, last), mem_singleton_self _, Or.inl (mem_singleton.mp mem)⟩
  | case3 first second rest ih =>
    rcases mem_cons.mp mem with rfl | mem
    · exact ⟨(digest, second), mem_cons_self, Or.inl rfl⟩
    rcases mem_cons.mp mem with rfl | mem
    · exact ⟨(first, digest), mem_cons_self, Or.inr rfl⟩
    · obtain ⟨pair, isPair, part⟩ := ih mem
      exact ⟨pair, mem_cons_of_mem _ isPair, part⟩

theorem nodup_pairsOf (distinct : layer.Nodup) : (pairsOf layer).Nodup := by
  induction layer using pairsOf.induct with
  | case1 => exact nodup_nil
  | case2 last => exact nodup_singleton _
  | case3 first second rest ih =>
    rw [nodup_cons, nodup_cons] at distinct
    obtain ⟨notLater, -, distinctRest⟩ := distinct
    refine nodup_cons.mpr ⟨fun mem => notLater ?_, ih distinctRest⟩
    exact mem_cons_of_mem _ (mem_of_mem_pairsOf mem).1

/-- Without a digest that stands twice, the pair of the last digest with itself is no pair of
neighbours. -/
theorem pairsOf_inj (distinct : layer.Nodup) (distinctToo : other.Nodup)
    (same : pairsOf layer = pairsOf other) : layer = other := by
  induction layer using pairsOf.induct generalizing other with
  | case1 =>
    match other with
    | [] => rfl
    | [_] => cases same
    | _ :: _ :: _ => cases same
  | case2 last =>
    match other, same with
    | [only], same =>
      rw [pairsOf, pairsOf, singleton_inj, Prod.mk.injEq] at same
      rw [same.1]
    | first :: second :: rest, same =>
      obtain ⟨pair, -⟩ := List.cons.inj same
      cases pair
      simp at distinctToo
  | case3 first second rest ih =>
    match other, same with
    | [only], same =>
      obtain ⟨pair, -⟩ := List.cons.inj same
      cases pair
      simp at distinct
    | one :: two :: more, same =>
      obtain ⟨pair, later⟩ := List.cons.inj same
      cases pair
      rw [nodup_cons, nodup_cons] at distinct distinctToo
      rw [ih distinct.2.2 distinctToo.2.2 later]

theorem length_pairsOf (layer : List α) : (pairsOf layer).length = (layer.length + 1) / 2 := by
  induction layer using pairsOf.induct with
  | case1 | case2 last => simp [pairsOf]
  | case3 first second rest ih =>
    rw [pairsOf, length_cons, length_cons, length_cons]
    omega

theorem layer_eq_singleton {place : Nat} (here : layer[place]? = some digest)
    (short : ¬ 1 < layer.length) : layer = [digest] := by
  match layer, place, here with
  | [only], 0, here => rw [Option.some.inj here]
  | _ :: _ :: _, _, _ => simp at short

/-- The layer with its last digest repeated if their number is odd. -/
def padded (layer : List α) : List α :=
  if layer.length % 2 = 1 then layer ++ layer.getLast?.toList else layer

theorem padded_cons_cons (first second : α) (rest : List α) :
    padded (first :: second :: rest) = first :: second :: padded rest := by
  unfold padded
  have parity : (first :: second :: rest).length % 2 = rest.length % 2 := by
    rw [length_cons, length_cons]
    omega
  rw [parity]
  split
  case isTrue odd =>
    have last : (first :: second :: rest).getLast? = rest.getLast? := by
      cases rest with
      | nil => simp at odd
      | cons head tail => rfl
    rw [last]
    rfl
  case isFalse => rfl

/-- The place of the neighbour that a place is joined with. -/
def siblingPlace (place : Nat) : Nat := if place % 2 = 0 then place + 1 else place - 1

section Tree

variable (join : α → α → α)

def joinPair (pair : α × α) : α := join pair.1 pair.2

def nextLayer (layer : List α) : List α := (pairsOf layer).map (joinPair join)

/-- Join layers as long as they have more than one digest. -/
def climb : Nat → List α → List α
  | 0, layer => layer
  | fuel + 1, layer => if 1 < layer.length then climb fuel (nextLayer join layer) else layer

/-- The pairs that are joined on the way up. -/
def climbed : Nat → List α → List (α × α)
  | 0, _ => []
  | fuel + 1, layer =>
    if 1 < layer.length then pairsOf layer ++ climbed fuel (nextLayer join layer) else []

variable (pairs : List (α × α))

/-- No two of the pairs give the same digest. -/
def NoCollision : Prop :=
  ∀ first ∈ pairs, ∀ second ∈ pairs, joinPair join first = joinPair join second → first = second

/-- The digest comes from one of the pairs. -/
def JoinedFrom (digest : α) : Prop :=
  ∃ pair ∈ pairs, digest = joinPair join pair

variable {join} {pairs more : List (α × α)}

theorem NoCollision.mono (free : NoCollision join more) (inside : ∀ pair ∈ pairs, pair ∈ more) :
    NoCollision join pairs :=
  fun first mem second memToo => free first (inside first mem) second (inside second memToo)

theorem JoinedFrom.mono (joined : JoinedFrom join pairs digest)
    (inside : ∀ pair ∈ pairs, pair ∈ more) : JoinedFrom join more digest := by
  obtain ⟨pair, mem, made⟩ := joined
  exact ⟨pair, inside pair mem, made⟩

theorem joinedFrom_of_mem_nextLayer (mem : digest ∈ nextLayer join layer) :
    JoinedFrom join (pairsOf layer) digest := by
  obtain ⟨pair, isPair, made⟩ := mem_map.mp mem
  exact ⟨pair, isPair, made.symm⟩

theorem nodup_nextLayer (distinct : layer.Nodup) (free : NoCollision join (pairsOf layer)) :
    (nextLayer join layer).Nodup :=
  (nodup_pairsOf distinct).map_on free

/-! ## The way up -/

variable (join) {fuel : Nat}

theorem climb_of_small (small : fuel = 0 ∨ ¬ 1 < layer.length) :
    climb join fuel layer = layer ∧ climbed join fuel layer = [] := by
  cases fuel with
  | zero => exact ⟨rfl, rfl⟩
  | succ fuel =>
    have short := small.resolve_left (Nat.succ_ne_zero fuel)
    exact ⟨if_neg short, if_neg short⟩

theorem climb_of_large (fuel : Nat) (large : 1 < layer.length) :
    climb join (fuel + 1) layer = climb join fuel (nextLayer join layer) ∧
      climbed join (fuel + 1) layer = pairsOf layer ++ climbed join fuel (nextLayer join layer) :=
  ⟨if_pos large, if_pos large⟩

/-- The top is the layer itself or made of pairs joined on the way. -/
theorem climb_eq_or_joined (fuel : Nat) (layer : List α) : climb join fuel layer = layer ∨
      ∀ digest ∈ climb join fuel layer, JoinedFrom join (climbed join fuel layer) digest := by
  induction fuel generalizing layer with
  | zero => exact Or.inl rfl
  | succ fuel ih =>
    by_cases large : 1 < layer.length
    · right
      obtain ⟨top, way⟩ := climb_of_large join fuel large
      rw [top, way]
      intro digest mem
      rcases ih _ with stays | joined
      · rw [stays] at mem
        exact (joinedFrom_of_mem_nextLayer mem).mono fun pair => mem_append_left _
      · exact (joined digest mem).mono fun pair => mem_append_right _
    · exact Or.inl (if_neg large)

/-- With enough fuel, exactly one digest is left of a layer that is not empty. -/
theorem exists_climb_eq_singleton (enough : layer.length ≤ fuel + 1) (some' : layer ≠ []) :
    ∃ top, climb join fuel layer = [top] := by
  induction fuel generalizing layer with
  | zero =>
    have one := le_antisymm enough (length_pos_iff.mpr some')
    exact length_eq_one_iff.mp one
  | succ fuel ih =>
    have positive := length_pos_iff.mpr some'
    by_cases large : 1 < layer.length
    · rw [(climb_of_large join fuel large).1]
      have half : (nextLayer join layer).length = (layer.length + 1) / 2 := by
        rw [nextLayer, length_map, length_pairsOf]
      exact ih (by omega) (ne_nil_of_length_pos (by omega))
    · rw [(climb_of_small join (Or.inr large)).1]
      exact length_eq_one_iff.mp (by omega)

variable {join} {more : Nat}

/-- What is joined above a layer stands in the layer or was joined before. -/
theorem parts_of_climbed (mem : pair ∈ climbed join fuel layer)
    (part : digest = pair.1 ∨ digest = pair.2) :
    digest ∈ layer ∨ JoinedFrom join (climbed join fuel layer) digest := by
  induction fuel generalizing layer with
  | zero => cases mem
  | succ fuel ih =>
    by_cases large : 1 < layer.length
    · obtain ⟨-, way⟩ := climb_of_large join fuel large
      rw [way] at mem ⊢
      rcases mem_append.mp mem with here | above
      · left
        obtain ⟨one, two⟩ := mem_of_mem_pairsOf here
        rcases part with rfl | rfl
        · exact one
        · exact two
      · right
        rcases ih above with inNext | joined
        · exact (joinedFrom_of_mem_nextLayer inNext).mono fun pair => mem_append_left _
        · exact joined.mono fun pair => mem_append_right _
    · rw [(climb_of_small join (Or.inr large)).2] at mem
      cases mem

/-- If the next layer is made of pairs joined above the next layer of another one, then so is
the layer itself. -/
theorem joined_below
    (free : NoCollision join (pairsOf layer ++ climbed join fuel (nextLayer join other)))
    (above : ∀ digest ∈ nextLayer join layer,
      JoinedFrom join (climbed join fuel (nextLayer join other)) digest) (mem : digest ∈ layer) :
    JoinedFrom join (pairsOf other ++ climbed join fuel (nextLayer join other)) digest := by
  obtain ⟨pair, isPair, part⟩ := exists_mem_pairsOf mem
  obtain ⟨higher, isHigher, same⟩ := above _ (mem_map_of_mem isPair)
  have pairs : pair = higher :=
    free pair (mem_append_left _ isPair) higher (mem_append_right _ isHigher) same
  rw [← pairs] at isHigher
  rcases parts_of_climbed isHigher part with inNext | joined
  · exact (joinedFrom_of_mem_nextLayer inNext).mono fun pair => mem_append_left _
  · exact joined.mono fun pair => mem_append_right _

/-- A layer that is its own top is the other layer, or it ends the way up from there. -/
theorem eq_or_joined_of_small (small : fuel = 0 ∨ ¬ 1 < layer.length)
    (same : climb join fuel layer = climb join more other) :
    layer = other ∨ ∀ digest ∈ layer, JoinedFrom join (climbed join more other) digest := by
  rw [(climb_of_small join small).1] at same
  rcases climb_eq_or_joined join more other with stays | joined
  · exact Or.inl (same.trans stays)
  · rw [← same] at joined
    exact Or.inr joined

/-- Two layers with the same top are the same, or one of them is made of pairs joined above the
other one. -/
theorem climb_inj (distinct : layer.Nodup) (distinctToo : other.Nodup)
    (free : NoCollision join (climbed join fuel layer ++ climbed join more other))
    (same : climb join fuel layer = climb join more other) :
    layer = other ∨ (∀ digest ∈ layer, JoinedFrom join (climbed join more other) digest) ∨
      ∀ digest ∈ other, JoinedFrom join (climbed join fuel layer) digest := by
  induction fuel generalizing more layer other with
  | zero => exact (eq_or_joined_of_small (Or.inl rfl) same).imp_right Or.inl
  | succ fuel ih =>
  by_cases large : 1 < layer.length
  case neg => exact (eq_or_joined_of_small (Or.inr large) same).imp_right Or.inl
  by_cases small : more = 0 ∨ ¬ 1 < other.length
  case pos => exact (eq_or_joined_of_small small same.symm).imp Eq.symm Or.inr
  -- Both go up: the next layers decide, and no two pairs below them have the same digest.
  obtain ⟨positive, largeToo⟩ := not_or.mp small
  obtain ⟨more, rfl⟩ := Nat.exists_eq_succ_of_ne_zero positive
  obtain ⟨top, way⟩ := climb_of_large join fuel large
  obtain ⟨topToo, wayToo⟩ := climb_of_large join more (not_not.mp largeToo)
  rw [top, topToo] at same
  rw [way, wayToo] at free ⊢
  have nextDistinct := nodup_nextLayer distinct (free.mono fun pair mem => by simp [mem])
  have nextDistinctToo := nodup_nextLayer distinctToo (free.mono fun pair mem => by simp [mem])
  have nextFree : NoCollision join (climbed join fuel (nextLayer join layer) ++
      climbed join more (nextLayer join other)) :=
    free.mono fun pair mem => by
      simp only [mem_append] at mem ⊢
      tauto
  rcases ih nextDistinct nextDistinctToo nextFree same with next | above | above
  · left
    refine pairsOf_inj distinct distinctToo (map_inj_of_mem (fun first mem second memToo => ?_) next)
    apply free first _ second <;> simp only [mem_append] <;> tauto
  · right; left
    intro digest mem
    refine joined_below (free.mono fun pair mem => ?_) above mem
    simp only [mem_append] at mem ⊢
    tauto
  · right; right
    intro digest mem
    refine joined_below (free.mono fun pair mem => ?_) above mem
    simp only [mem_append] at mem ⊢
    tauto

/-! ## One way up -/

variable (join) in
/-- Join a digest with its neighbour, which stands before it if so marked. -/
def joinBeside (digest : α) (step : α × Bool) : α :=
  if step.2 then join step.1 digest else join digest step.1

variable (join) in
/-- Above a digest stands its join with the neighbour in the padded layer. -/
theorem nextLayer_above {place : Nat} (here : layer[place]? = some digest) :
    ∃ sibling, (padded layer)[siblingPlace place]? = some sibling ∧
      (nextLayer join layer)[place / 2]? = some (joinBeside join digest (sibling, place % 2 = 1)) := by
  induction layer using pairsOf.induct generalizing place with
  | case1 => cases here
  | case2 last =>
    cases place with
    | zero =>
      obtain rfl : last = digest := Option.some.inj here
      exact ⟨last, rfl, rfl⟩
    | succ place => cases here
  | case3 first second rest ih =>
    rw [padded_cons_cons]
    match place with
    | 0 =>
      obtain rfl : first = digest := Option.some.inj here
      exact ⟨second, rfl, rfl⟩
    | 1 =>
      obtain rfl : second = digest := Option.some.inj here
      exact ⟨first, rfl, rfl⟩
    | place + 2 =>
      obtain ⟨sibling, beside, above⟩ := ih (show rest[place]? = some digest from here)
      have shift : siblingPlace (place + 2) = siblingPlace place + 2 := by
        unfold siblingPlace
        split <;> split <;> omega
      refine ⟨sibling, by rw [shift]; exact beside, ?_⟩
      rw [show (place + 2) / 2 = place / 2 + 1 by omega, show (place + 2) % 2 = place % 2 by omega]
      exact above

end Tree

end EgoChain.Foundations
