import EgoChain.Foundations.Texts
import EgoChain.Foundations.Totals

/-!
# Vesting schedules

`vesting.urego` locks tokens that vest block by block.  A claim computes what is vested from
the block alone and does not look at the revocation, so a revoked schedule is paid out again
while it vests on.  Every schedule is paid once as long as nobody makes such a claim.

A call that fails, or whose numbers overflow, changes nothing, as if it had not been made.
-/

namespace EgoChain.Contracts

open EgoChain.Foundations Option

structure Vest where
  token : Text
  beneficiary : Text
  creator : Text
  totalAmount : Nat
  claimed : Nat
  cliffBlock : Nat
  endBlock : Nat
  revocable : Bool
  /-- The flag, with the block at which it was set. -/
  revoked : Option Nat

namespace Vest

variable (vest : Vest) (block : Nat) (caller : Text)

def vestedAmount : Nat :=
  if block < vest.cliffBlock then 0
  else if vest.endBlock ≤ block then vest.totalAmount
  else vest.totalAmount * (block - vest.cliffBlock) / (vest.endBlock - vest.cliffBlock)

def claimable : Nat := vest.vestedAmount block - vest.claimed

/-- What a claim stores and what it transfers to the beneficiary. -/
def claim : Option (Vest × Nat) :=
  if caller = vest.beneficiary ∧ 0 < vest.claimable block then
    some ({ vest with claimed := vest.claimed + vest.claimable block }, vest.claimable block)
  else none

/-- What a revocation stores and what it transfers to the creator. -/
def revoke : Option (Vest × Nat) :=
  if caller = vest.creator ∧ vest.revocable ∧ vest.revoked = none then
    some ({ vest with revoked := some block }, vest.totalAmount - vest.vestedAmount block)
  else none

/-- What went back to the creator. -/
def returned : Nat := vest.revoked.elim 0 fun block => vest.totalAmount - vest.vestedAmount block

def outstanding : Nat := vest.totalAmount - vest.claimed - vest.returned

end Vest

namespace Vesting

inductive Call where
  /-- Whether `transfer_from` succeeds is up to the token; the schedule is stored in any case. -/
  | createVest (token beneficiary : Text) (totalAmount cliffBlocks vestDurationBlocks : Nat)
      (revocable pulled : Bool)
  | claim (vestId : Nat)
  | revoke (vestId : Nat)

structure Event where
  block : Nat
  caller : Text
  call : Call

/-- The storage of the contract, and its balance of each token. -/
structure State where
  vestCount : Nat := 0
  vests : KeyedMap Nat Vest := ∅
  balance : Text → Nat := fun _ => 0

variable (state : State)

/-- Stores a schedule and has the token transfer an amount, which fails if the balance is less. -/
def State.pay (vestId : Nat) (change : Vest → Option (Vest × Nat)) : State :=
  match (state.vests.lookup vestId).bind change with
  | none => state
  | some (vest, amount) =>
    { state with
      vests := state.vests.insert vestId vest
      balance := fun token =>
        if token = vest.token ∧ amount ≤ state.balance token then state.balance token - amount
        else state.balance token }

def State.step (event : Event) : State :=
  match event.call with
  | .createVest token beneficiary totalAmount cliffBlocks vestDurationBlocks revocable pulled =>
    let cliffBlock := event.block + cliffBlocks
    let endBlock := cliffBlock + vestDurationBlocks
    if 0 < totalAmount ∧ 0 < vestDurationBlocks then
      { vestCount := state.vestCount + 1
        vests := state.vests.insert state.vestCount
          ⟨token, beneficiary, event.caller, totalAmount, 0, cliffBlock, endBlock, revocable, none⟩
        balance := fun other =>
          state.balance other + if other = token ∧ pulled then totalAmount else 0 }
    else state
  | .claim vestId => state.pay vestId fun vest => vest.claim event.block event.caller
  | .revoke vestId => state.pay vestId fun vest => vest.revoke event.block event.caller

/-- What a schedule still has to pay in a token. -/
def owed (token : Text) (_ : Nat) (vest : Vest) : Nat :=
  if vest.token = token then vest.outstanding else 0

/-- The states that calls at heights which do not go back lead to. -/
inductive Reached (allowed : State → Event → Prop) : State → Nat → Prop
  | start : Reached allowed {} 0
  | next {state : State} {now : Nat} (event : Event) (reached : Reached allowed state now)
      (later : now ≤ event.block) (ok : allowed state event) :
      Reached allowed (state.step event) event.block

def PaidIn (_ : State) (event : Event) : Prop :=
  match event.call with
  | .createVest _ _ _ _ _ _ pulled => pulled = true
  | _ => True

/-- Schedules are paid in, and nobody claims what vests after a revocation. -/
def Proper (event : Event) : Prop :=
  PaidIn state event ∧ ∀ vestId vest block, event.call = .claim vestId →
    state.vests.lookup vestId = some vest → vest.revoked = some block →
    vest.vestedAmount event.block ≤ vest.vestedAmount block

end Vesting

/-! ## What vests -/

namespace Vest

variable {vest after : Vest} {block next amount : Nat} {caller : Text}

theorem vestedAmount_le (vest : Vest) (block : Nat) : vest.vestedAmount block ≤ vest.totalAmount := by
  unfold vestedAmount
  split
  · exact Nat.zero_le _
  split
  · exact le_rfl
  · exact Nat.div_le_of_le_mul (by rw [mul_comm]; exact Nat.mul_le_mul_right _ (by omega))

theorem vestedAmount_mono (order : block ≤ next) : vest.vestedAmount block ≤ vest.vestedAmount next := by
  have most := vest.vestedAmount_le block
  by_cases running : vest.cliffBlock ≤ block ∧ next < vest.endBlock
  · unfold vestedAmount
    rw [if_neg (by omega), if_neg (by omega), if_neg (by omega), if_neg (by omega)]
    exact Nat.div_le_div_right (Nat.mul_le_mul_left _ (by omega))
  · unfold vestedAmount at *
    split_ifs at * <;> first | exact Nat.zero_le _ | omega

/-- No more is claimed than is vested, now or when the schedule was revoked. -/
def Sound (vest : Vest) (now : Nat) : Prop :=
  vest.claimed ≤ vest.vestedAmount (vest.revoked.getD now)

theorem Sound.later (sound : vest.Sound block) (order : block ≤ next) : vest.Sound next := by
  refine sound.trans (vestedAmount_mono ?_)
  cases vest.revoked with
  | none => exact order
  | some _ => exact le_rfl

theorem Sound.total (sound : vest.Sound block) : vest.claimed + vest.returned ≤ vest.totalAmount := by
  have most := vest.vestedAmount_le (vest.revoked.getD block)
  unfold Sound at sound
  unfold returned
  cases isRevoked : vest.revoked <;> simp_all <;> omega

/-- The schedule stays sound, and owes less by what is paid. -/
structure Pays (vest : Vest) (now : Nat) (next : Vest) (amount : Nat) : Prop where
  token : next.token = vest.token
  sound : next.Sound now
  less : next.outstanding + amount ≤ vest.outstanding

theorem pays_claim (within : ∀ revokedAt, vest.revoked = some revokedAt →
      vest.vestedAmount block ≤ vest.vestedAmount revokedAt)
    (claimed : vest.claim block caller = some (after, amount)) : vest.Pays block after amount := by
  obtain ⟨⟨-, positive⟩, done⟩ := ite_none_right_eq_some.mp claimed
  have all : vest.claimed + vest.claimable block = vest.vestedAmount block := by
    unfold claimable at *
    omega
  have sound : after.Sound block := by
    cases done
    refine all.trans_le ?_
    cases isRevoked : vest.revoked with
    | none => exact le_rfl
    | some revokedAt => exact within revokedAt isRevoked
  have total := sound.total
  cases done
  refine ⟨rfl, sound, ?_⟩
  simp only [outstanding, returned, vestedAmount] at total ⊢
  omega

theorem Sound.pays_revoke (sound : vest.Sound block)
    (revoked : vest.revoke block caller = some (after, amount)) : vest.Pays block after amount := by
  obtain ⟨⟨-, -, notYet⟩, done⟩ := ite_none_right_eq_some.mp revoked
  cases done
  have within : vest.claimed ≤ vest.vestedAmount block := by simpa [Sound, notYet] using sound
  have most := vest.vestedAmount_le block
  refine ⟨rfl, within, ?_⟩
  simp only [outstanding, returned, vestedAmount, notYet, elim_none, elim_some] at *
  omega

end Vest

/-! ## Runs -/

namespace Vesting

structure Kept (state : State) (now : Nat) : Prop where
  sound : ∀ vestId vest, state.vests.lookup vestId = some vest → vest.Sound now
  covered : ∀ token, state.vests.total (owed token) ≤ state.balance token

variable {now vestId : Nat} {state : State}

theorem Kept.insert {vestCount : Nat} {vest : Vest} {balance : Text → Nat} (kept : Kept state now)
    (sound : vest.Sound now) (pays : ∀ token, state.balance token + owed token vestId vest ≤
      balance token + state.vests.weightAt (owed token) vestId) :
    Kept ⟨vestCount, state.vests.insert vestId vest, balance⟩ now where
  sound other found isThere := by
    rcases KeyedMap.lookup_of_insert isThere with ⟨-, rfl⟩ | before
    · exact sound
    · exact kept.sound other found before
  covered token := by
    have written := KeyedMap.total_insert state.vests (owed token) vestId vest
    have covered := kept.covered token
    have paid := pays token
    dsimp only
    omega

theorem Kept.pay {change : Vest → Option (Vest × Nat)} (kept : Kept state now)
    (pays : ∀ vest next amount, state.vests.lookup vestId = some vest →
      change vest = some (next, amount) → vest.Pays now next amount) :
    Kept (state.pay vestId change) now := by
  unfold State.pay
  split
  · exact kept
  case h_2 next amount changed =>
  obtain ⟨vest, found, isNext⟩ := bind_eq_some_iff.mp changed
  obtain ⟨same, sound, less⟩ := pays vest next amount found isNext
  refine kept.insert sound fun token => ?_
  have part := KeyedMap.total_erase state.vests (owed token) vestId
  have covered := kept.covered token
  rw [KeyedMap.weightAt_of_lookup found] at part ⊢
  unfold owed at *
  rw [same]
  by_cases isToken : vest.token = token
  · simp only [isToken, if_true, true_and] at *
    rw [if_pos (by omega)]
    omega
  · simp [isToken, Ne.symm isToken]

theorem Kept.step {event : Event} (kept : Kept state event.block) (proper : Proper state event) :
    Kept (state.step event) event.block := by
  obtain ⟨paidIn, within⟩ := proper
  unfold State.step
  unfold PaidIn at paidIn
  cases isCall : event.call with
  | createVest token =>
    simp only [isCall] at paidIn ⊢
    split
    case isFalse => exact kept
    case isTrue =>
      refine kept.insert (Nat.zero_le _) fun other => ?_
      by_cases isToken : token = other <;>
        simp [owed, Vest.outstanding, Vest.returned, paidIn, isToken, eq_comm]
  | claim vestId =>
    exact kept.pay fun vest _ _ found => Vest.pays_claim fun block => within vestId vest block isCall found
  | revoke vestId => exact kept.pay fun vest _ _ found => (kept.sound vestId vest found).pays_revoke

/-- As long as schedules are paid in and nobody claims what vests after a revocation, no schedule pays
more than its total, nor its beneficiary more than was vested at the revocation, and the contract has
what all schedules of a token still have to pay. -/
theorem schedules_are_paid_once (reached : Reached Proper state now) :
    (∀ vestId vest, state.vests.lookup vestId = some vest →
      vest.claimed + vest.returned ≤ vest.totalAmount ∧
        ∀ block, vest.revoked = some block → vest.claimed ≤ vest.vestedAmount block) ∧
      ∀ token, state.vests.total (owed token) ≤ state.balance token := by
  have kept : Kept state now := by
    induction reached with
    | start => exact ⟨nofun, fun _ => le_rfl⟩
    | next event _ later proper ih =>
      exact Kept.step ⟨fun id vest found => (ih.sound id vest found).later later, ih.covered⟩ proper
  refine ⟨fun vestId vest found => ?_, kept.covered⟩
  have sound := kept.sound vestId vest found
  exact ⟨sound.total, fun block isRevoked => by simpa [Vest.Sound, isRevoked] using sound⟩

def created : Event := ⟨1, [1], .createVest [7] [2] 100 0 10 true true⟩

def half : State :=
  ((State.step {} created).step ⟨6, [1], .revoke 0⟩).step ⟨6, [2], .claim 0⟩

/-- A schedule is revoked half way, and what was vested until then is claimed. -/
theorem half_is_claimed : ∃ vest, half.vests.lookup 0 = some vest ∧ vest.revoked = some 6 ∧
      vest.claimed = 50 ∧ vest.returned = 50 ∧ vest.claimed + vest.returned ≤ vest.totalAmount ∧
      vest.claimed ≤ vest.vestedAmount 6 := by
  have reached : Reached Proper half 6 := by
    refine .next _ (.next _ (.next created .start (by decide) ⟨rfl, nofun⟩) (by decide)
      ⟨trivial, nofun⟩) le_rfl ⟨trivial, fun _ _ _ called found => ?_⟩
    cases called
    cases found
    rintro ⟨⟩
    exact le_rfl
  obtain ⟨paidOnce, frozen⟩ := (schedules_are_paid_once reached).1 0 _ rfl
  exact ⟨_, rfl, rfl, by decide, by decide, paidOnce, frozen 6 rfl⟩

def twice : State :=
  (((State.step {} created).step created).step ⟨1, [1], .revoke 0⟩).step ⟨11, [2], .claim 0⟩

/-- The first of two schedules in one token is revoked at once and claimed in the end: it pays its total
twice, and nothing is left for the second. -/
theorem revoked_schedule_pays_twice :
    ∃ state now vest, Reached PaidIn state now ∧ state.vests.lookup 0 = some vest ∧
      vest.claimed + vest.returned = 2 * vest.totalAmount ∧
      (∃ block, vest.revoked = some block ∧ vest.vestedAmount block < vest.claimed) ∧
      state.balance [7] < state.vests.total (owed [7]) := by
  refine ⟨twice, 11, _, ?_, rfl, by decide, ⟨1, rfl, by decide⟩, by decide⟩
  exact .next _ (.next _ (.next created (.next created .start (by decide) rfl) le_rfl rfl) le_rfl trivial)
    (by decide) trivial

end Vesting

end EgoChain.Contracts
