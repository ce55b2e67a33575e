import EgoChain.Market.EscrowBacking
import EgoChain.Market.KeyOwners

/-!
# Market blocks mean the same in every order

The validator admits the market transactions of a block in the order of the block,
the writer in the order of their hashes.  The effects of a transaction depend on
the store before the block only, so a plan is a sequence of small changes: a
write, a change of a profile, a new pair of partners, a flow of coins.  Changes of
transactions that touch different records commute.
-/

namespace EgoChain.Market

open EgoChain.Foundations EgoChain.Ledger Function List

/-! ## Profiles -/

theorem satAdd_right_comm (total first second : Nat) :
    satAdd (satAdd total first) second = satAdd (satAdd total second) first := by
  unfold satAdd
  omega

namespace Profile

theorem joinTimes_right_comm {join : Int → Int → Int} (comm : ∀ a b, join a b = join b a)
    (swap : ∀ a b c, join (join a b) c = join (join a c) b) (time first second : Option Int) :
    joinTimes join (joinTimes join time first) second =
      joinTimes join (joinTimes join time second) first := by
  cases time <;> cases first <;> cases second <;> simp [joinTimes]
  · exact comm _ _
  · exact swap _ _ _

theorem absorb_right_comm (profile first second : Profile) :
    (profile.absorb first).absorb second = (profile.absorb second).absorb first := by
  have earliest := joinTimes_right_comm (min_comm) (min_right_comm)
  have latest := joinTimes_right_comm (max_comm) (max_right_comm)
  simp only [absorb, mk.injEq, earliest, latest, and_true]
  and_intros <;> exact satAdd_right_comm _ _ _

end Profile

/-! ## Changes to a plan -/

/-- One small change to a plan. -/
inductive PlanChange where
  | put (write : StoreWrite)
  | absorb (entry : Text × Profile)
  | pair (pair : Text × Text × Text)
  | flow (escrowIn escrowOut opened closed : Nat)

/-- What a plan says, as functions of keys and accounts. -/
@[ext]
structure PlanView where
  pairs : Text → Bool
  writes : Text → Option (Option Stored)
  profiles : Text → Option Profile
  escrowIn : Nat
  escrowOut : Nat
  opened : Nat
  closed : Nat

variable {first second : Text × Text × Text}

namespace PlanView

variable (height : Nat) (view : PlanView) (key : Text) (pair : Text × Text × Text)
  (entry : Text × Profile)

def put (write : StoreWrite) : PlanView :=
  { view with writes := Function.update view.writes write.1 (some write.2) }

def absorb : PlanView :=
  { view with
    profiles := Function.update view.profiles entry.1
      (some (((view.profiles entry.1).getD {}).absorb entry.2)) }

def mark : PlanView :=
  { view with pairs := Function.update view.pairs key true }.put (key, some (.height height))

/-- Two accounts trade with one another for the first time. -/
def enter : PlanView :=
  ((view.mark height pair.1).absorb (pair.2.1, { partners := 1 })).absorb (pair.2.2, { partners := 1 })

def change : PlanChange → PlanView
  | .put write => view.put write
  | .absorb entry => view.absorb entry
  | .pair pair => if view.pairs pair.1 then view else view.enter height pair
  | .flow escrowIn escrowOut opened closed =>
    { view with
      escrowIn := satAdd view.escrowIn escrowIn
      escrowOut := satAdd view.escrowOut escrowOut
      opened := satAdd view.opened opened
      closed := satAdd view.closed closed }

theorem absorb_comm (first second : Text × Profile) :
    (view.absorb first).absorb second = (view.absorb second).absorb first := by
  unfold absorb
  by_cases same : second.1 = first.1
  · rw [same]
    simp [Profile.absorb_right_comm]
  · dsimp only
    rw [update_of_ne same, update_of_ne (Ne.symm same), update_comm same]

theorem put_comm {first second : StoreWrite} (agree : first.1 = second.1 → first.2 = second.2) :
    (view.put first).put second = (view.put second).put first := by
  unfold put
  congr 1
  by_cases same : second.1 = first.1
  · rw [same, agree same.symm]
  · exact update_comm (Ne.symm same) _ _ _

theorem enter_absorb :
    (view.absorb entry).enter height pair = (view.enter height pair).absorb entry := by
  unfold enter
  rw [absorb_comm _ _ entry, absorb_comm _ _ entry]
  rfl

/-- A pair is the same whichever account comes first. -/
theorem mark_comm {first second : Text} (apart : first ≠ second) :
    (view.mark height first).mark height second = (view.mark height second).mark height first := by
  unfold mark put
  congr 1 <;> exact update_comm apart _ _ _

theorem enter_comm (apart : first.1 ≠ second.1) : (view.enter height first).enter height second =
      (view.enter height second).enter height first := by
  have marked : (view.mark height first.1).enter height second =
      (view.enter height second).mark height first.1 := by
    unfold enter
    rw [mark_comm height view apart]
    rfl
  calc
    (view.enter height first).enter height second =
        (((view.mark height first.1).enter height second).absorb
          (first.2.1, { partners := 1 })).absorb (first.2.2, { partners := 1 }) := by
      rw [← enter_absorb, ← enter_absorb]
      rfl
    _ = (view.enter height second).enter height first := by
      rw [marked]
      rfl

end PlanView

/-- Two changes do not stand in each other's way. -/
def PlanChange.Fits : PlanChange → PlanChange → Prop
  | .put first, .put second => first.1 = second.1 → first.2 = second.2
  | .put write, .pair accounts => write.1 ≠ accounts.1
  | .pair accounts, .put write => write.1 ≠ accounts.1
  | .pair first, .pair second => first.1 = second.1 →
      first.2 = second.2 ∨ (first.2.1 = second.2.2 ∧ first.2.2 = second.2.1)
  | _, _ => True

namespace PlanView

variable {pair : Text × Text × Text}

section

variable (height : Nat)

include height

theorem change_pair_known {view : PlanView} (known : view.pairs pair.1 = true) :
    view.change height (.pair pair) = view :=
  if_pos known

theorem change_pair_new {view : PlanView} (new : view.pairs pair.1 = false) :
    view.change height (.pair pair) = view.enter height pair :=
  if_neg (by simp [new])

/-- A change that leaves a pair alone may come before it or after it. -/
theorem change_pair_past {view : PlanView} (alter : PlanView → PlanView)
    (keeps : (alter view).pairs pair.1 = view.pairs pair.1)
    (enters : (alter view).enter height pair = alter (view.enter height pair)) :
    (alter view).change height (.pair pair) = alter (view.change height (.pair pair)) := by
  cases known : view.pairs pair.1 with
  | true => rw [change_pair_known height known, change_pair_known height (keeps.trans known)]
  | false =>
    rw [change_pair_new height known, change_pair_new height (keeps.trans known), enters]

variable (view : PlanView) {write : StoreWrite}

include view

theorem enter_put (apart : write.1 ≠ pair.1) :
    (view.put write).enter height pair = (view.enter height pair).put write := by
  have marked : (view.put write).mark height pair.1 = (view.mark height pair.1).put write :=
    put_comm { view with pairs := Function.update view.pairs pair.1 true } fun same => absurd same apart
  unfold enter
  rw [marked]
  rfl

theorem change_pair_put (apart : write.1 ≠ pair.1) :
    (view.put write).change height (.pair pair) = (view.change height (.pair pair)).put write :=
  change_pair_past height (put · write) rfl (enter_put height view apart)

theorem change_pair_absorb (entry : Text × Profile) : (view.absorb entry).change height (.pair pair) =
      (view.change height (.pair pair)).absorb entry :=
  change_pair_past height (absorb · entry) rfl (enter_absorb height view pair entry)

theorem change_pair_flow (escrowIn escrowOut opened closed : Nat) :
    (view.change height (.flow escrowIn escrowOut opened closed)).change height (.pair pair) =
      (view.change height (.pair pair)).change height (.flow escrowIn escrowOut opened closed) :=
  change_pair_past height (change height · (.flow escrowIn escrowOut opened closed)) rfl rfl

theorem pairs_enter (pair : Text × Text × Text) (key : Text) :
    (view.enter height pair).pairs key = if key = pair.1 then true else view.pairs key := by
  exact update_apply _ _ _ _

theorem enter_again (same : first.1 = second.1) :
    (view.enter height first).change height (.pair second) = view.enter height first :=
  change_pair_known height (by rw [pairs_enter, if_pos same.symm])

theorem change_pair_pair (agree : first.1 = second.1 →
      first.2 = second.2 ∨ (first.2.1 = second.2.2 ∧ first.2.2 = second.2.1)) :
    (view.change height (.pair first)).change height (.pair second) =
      (view.change height (.pair second)).change height (.pair first) := by
  by_cases same : first.1 = second.1
  · have entered : view.enter height first = view.enter height second := by
      obtain ⟨key, one, two⟩ := first
      obtain ⟨again, three, four⟩ := second
      dsimp only at same agree
      subst same
      rcases agree rfl with equal | ⟨rfl, rfl⟩
      · rw [equal]
      · exact absorb_comm _ _ _
    cases known : view.pairs first.1 with
    | true =>
      rw [change_pair_known height known, change_pair_known height (same ▸ known),
        change_pair_known height known]
    | false =>
      have new := same ▸ known
      rw [change_pair_new height known, change_pair_new height new,
        enter_again height view same, enter_again height view same.symm, entered]
  · have kept : (view.change height (.pair first)).pairs second.1 = view.pairs second.1 := by
      rw [change]
      split
      · rfl
      · rw [pairs_enter, if_neg (Ne.symm same)]
    have past := change_pair_past height (enter height · second) (by rw [pairs_enter, if_neg same])
      (enter_comm height view (Ne.symm same))
    exact change_pair_past height (change height · (.pair first)) kept past.symm

theorem change_comm {first second : PlanChange} (fits : first.Fits second) :
    (view.change height first).change height second =
      (view.change height second).change height first := by
  cases first with
  | put write =>
    cases second with
    | put other => exact put_comm view fits
    | absorb entry | flow => rfl
    | pair pair => exact change_pair_put height view fits
  | absorb entry =>
    cases second with
    | put write | flow => rfl
    | absorb other => exact absorb_comm view entry other
    | pair pair => exact change_pair_absorb height view entry
  | pair pair =>
    cases second with
    | put write => exact (change_pair_put height view fits).symm
    | absorb entry => exact (change_pair_absorb height view entry).symm
    | pair other => exact change_pair_pair height view fits
    | flow => exact (change_pair_flow height view _ _ _ _).symm
  | flow =>
    cases second with
    | put write | absorb entry => rfl
    | pair pair => exact change_pair_flow height view _ _ _ _
    | flow =>
      unfold change
      simp only [mk.injEq, true_and]
      and_intros <;> exact satAdd_right_comm _ _ _

end

end PlanView

/-! ## The planner as a sequence of changes -/

def Planner.view (planner : Planner) : PlanView where
  pairs key := key ∈ planner.pairs
  writes := planner.writes.lookup
  profiles := planner.profiles.lookup
  escrowIn := planner.escrowIn
  escrowOut := planner.escrowOut
  opened := planner.opened
  closed := planner.closed

def Effects.changes (effects : Effects) : List PlanChange :=
  effects.writes.map .put ++ effects.profiles.map .absorb ++ effects.pairs.map .pair ++
    [.flow effects.escrowIn effects.escrowOut effects.opened effects.closed]

theorem lookup_insert_update {ν : Type} (map : KeyedMap Text ν) (key : Text) (value : ν) :
    (fun other => (map.insert key value).lookup other) =
      Function.update (fun other => map.lookup other) key (some value) := by
  funext other
  rw [KeyedMap.lookup_insert_eq, update_apply]

namespace Planner

section

variable (planner : Planner)

include planner

theorem view_insert (key : Text) (value : Option Stored) :
    ({ planner with writes := planner.writes.insert key value } : Planner).view =
      planner.view.put (key, value) := by
  unfold view PlanView.put
  congr 1
  exact lookup_insert_update _ _ _

theorem view_writes (writes : List StoreWrite) : ({ planner with
        writes := writes.foldl (fun writes write => writes.insert write.1 write.2)
          planner.writes } : Planner).view =
      (writes.map PlanChange.put).foldl (PlanView.change planner.height) planner.view := by
  rw [foldl_map]
  exact (foldl_hom (fun writes => ({ planner with writes } : Planner).view) fun writes write =>
    (view_insert { planner with writes } write.1 write.2).symm).symm

theorem view_absorbAt (entry : Text × Profile) :
    ({ planner with profiles := absorbAt planner.profiles entry } : Planner).view =
      planner.view.absorb entry := by
  unfold view PlanView.absorb absorbAt
  congr 1
  exact lookup_insert_update _ _ _

theorem view_profiles (profiles : List (Text × Profile)) :
    ({ planner with profiles := profiles.foldl absorbAt planner.profiles } : Planner).view =
      (profiles.map PlanChange.absorb).foldl (PlanView.change planner.height) planner.view := by
  rw [foldl_map]
  exact (foldl_hom (fun profiles => ({ planner with profiles } : Planner).view) fun profiles entry =>
    (view_absorbAt { planner with profiles } entry).symm).symm

variable (pair : Text × Text × Text)

theorem view_mergePair :
    (planner.mergePair pair).view = planner.view.change planner.height (.pair pair) := by
  unfold mergePair
  split
  case isTrue known =>
    rw [PlanView.change_pair_known]
    exact decide_eq_true known
  case isFalse new =>
  have listed : ({ planner with pairs := pair.1 :: planner.pairs } : Planner).view =
      { planner.view with pairs := Function.update planner.view.pairs pair.1 true } := by
    unfold view
    congr 1
    funext key
    by_cases same : key = pair.1 <;> simp [same]
  rw [PlanView.change_pair_new _ (by exact decide_eq_false new), PlanView.enter, PlanView.mark,
    ← listed, ← view_insert, ← view_absorbAt, ← view_absorbAt]

theorem view_mergePairs (pairs : List (Text × Text × Text)) : (pairs.foldl mergePair planner).view =
        (pairs.map PlanChange.pair).foldl (PlanView.change planner.height) planner.view ∧
      (pairs.foldl mergePair planner).toPlanContext = planner.toPlanContext := by
  induction pairs generalizing planner with
  | nil => exact ⟨rfl, rfl⟩
  | cons pair rest ih =>
    obtain ⟨views, contexts⟩ := ih _
    have same : (planner.mergePair pair).toPlanContext = planner.toPlanContext := by
      unfold mergePair
      split <;> rfl
    rw [view_mergePair, congrArg PlanContext.height same] at views
    exact ⟨views, contexts.trans same⟩

/-- Merging effects makes their changes, one after the other. -/
theorem view_merge (effects : Effects) : (planner.merge effects).view =
        effects.changes.foldl (PlanView.change planner.height) planner.view ∧
      (planner.merge effects).toPlanContext = planner.toPlanContext := by
  have written := view_writes planner effects.writes
  have absorbed := view_profiles { planner with writes := (effects.writes.foldl
    (fun writes write => writes.insert write.1 write.2) planner.writes) } effects.profiles
  rw [written, ← foldl_append] at absorbed
  have records : (planner.mergeRecords effects).view =
      (effects.writes.map PlanChange.put ++ effects.profiles.map PlanChange.absorb).foldl
        (PlanView.change planner.height) planner.view := absorbed
  obtain ⟨paired, context⟩ := view_mergePairs _ effects.pairs
  have height : (planner.mergeRecords effects).height = planner.height := rfl
  rw [records, height, ← foldl_append] at paired
  refine ⟨?_, context⟩
  unfold Effects.changes
  rw [foldl_append, ← paired]
  rfl

end

end Planner

end EgoChain.Market
