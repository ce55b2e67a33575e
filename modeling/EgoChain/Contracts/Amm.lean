import EgoChain.Foundations.Texts
import EgoChain.Foundations.Totals
import Mathlib.Tactic.Linarith
import Mathlib.Tactic.Ring

/-!
# The constant-product pool

`amm.urego` keeps two reserves and the shares of those who deposited them.  Every quotient
is rounded in favour of the pool: what a share stands for never falls, whoever calls what.

Numbers do not overflow here.  A call fails at an assertion, at a subtraction below 0 and at
a division by 0, and leaves the storage as it was.
-/

namespace EgoChain.Contracts

open EgoChain.Foundations Nat Option

/-- The storage of the contract; the tokens of the pair are only read for events. -/
structure Pool where
  feeBps : Nat
  reserveA : Nat
  reserveB : Nat
  totalLp : Nat
  lp : KeyedMap Text Nat
  feeWithin : feeBps ≤ 10000

namespace Pool

def init (tokenA tokenB : Text) (feeBps : Nat) : Option Pool :=
  if within : tokenA < tokenB ∧ feeBps ≤ 10000 then some ⟨feeBps, 0, 0, 0, ∅, within.2⟩ else none

variable (pool : Pool) (caller : Text)

def lpMinted (amountA amountB : Nat) : Nat :=
  if pool.totalLp = 0 then sqrt (amountA * amountB)
  else min (amountA * pool.totalLp / pool.reserveA) (amountB * pool.totalLp / pool.reserveB)

def addLiquidity (amountA amountB minLp : Nat) : Option (Nat × Pool) :=
  let minted := pool.lpMinted amountA amountB
  if 0 < amountA ∧ 0 < amountB ∧ (pool.totalLp = 0 → 0 < minted) ∧
      (pool.totalLp ≠ 0 → pool.reserveA ≠ 0 ∧ pool.reserveB ≠ 0) ∧ minLp ≤ minted then
    some (minted, { pool with
        reserveA := pool.reserveA + amountA
        reserveB := pool.reserveB + amountB
        lp := pool.lp.addTo caller minted
        totalLp := pool.totalLp + minted })
  else none

def removeLiquidity (lpAmount minA minB : Nat) : Option (Nat × Pool) :=
  let callerLp := (pool.lp.lookup caller).getD 0
  let amountA := lpAmount * pool.reserveA / pool.totalLp
  let amountB := lpAmount * pool.reserveB / pool.totalLp
  if 0 < lpAmount ∧ lpAmount ≤ callerLp ∧ pool.totalLp ≠ 0 ∧ minA ≤ amountA ∧ minB ≤ amountB ∧
      lpAmount ≤ pool.totalLp ∧ amountA ≤ pool.reserveA ∧ amountB ≤ pool.reserveB then
    some (amountA, { pool with
        reserveA := pool.reserveA - amountA
        reserveB := pool.reserveB - amountB
        lp := pool.lp.insert caller (callerLp - lpAmount)
        totalLp := pool.totalLp - lpAmount })
  else none

def reserveIn (isAToB : Bool) : Nat := if isAToB then pool.reserveA else pool.reserveB

def reserveOut (isAToB : Bool) : Nat := if isAToB then pool.reserveB else pool.reserveA

def exchange (isAToB : Bool) (amountIn amountOut : Nat) : Pool :=
  if isAToB then
    { pool with reserveA := pool.reserveA + amountIn, reserveB := pool.reserveB - amountOut }
  else { pool with reserveB := pool.reserveB + amountIn, reserveA := pool.reserveA - amountOut }

def afterFee (amount : Nat) : Nat := amount * (10000 - pool.feeBps) / 10000

def swapExactIn (isAToB : Bool) (amountIn minOut : Nat) : Option (Nat × Pool) :=
  let feeAdjusted := pool.afterFee amountIn
  let amountOut := pool.reserveOut isAToB * feeAdjusted / (pool.reserveIn isAToB + feeAdjusted)
  if 0 < amountIn ∧ 0 < pool.reserveIn isAToB ∧ 0 < pool.reserveOut isAToB ∧ minOut ≤ amountOut ∧
      amountOut < pool.reserveOut isAToB then
    some (amountOut, pool.exchange isAToB amountIn amountOut)
  else none

def swapExactOut (isAToB : Bool) (amountOut maxIn : Nat) : Option (Nat × Pool) :=
  let denominator := pool.afterFee (pool.reserveOut isAToB - amountOut)
  let amountIn := pool.reserveIn isAToB * amountOut / denominator + 1
  if 0 < amountOut ∧ 0 < pool.reserveIn isAToB ∧ 0 < pool.reserveOut isAToB ∧
      amountOut < pool.reserveOut isAToB ∧ denominator ≠ 0 ∧ amountIn ≤ maxIn then
    some (amountIn, pool.exchange isAToB amountIn amountOut)
  else none

inductive Call where
  | addLiquidity (amountA amountB minLp : Nat)
  | removeLiquidity (lpAmount minA minB : Nat)
  | swapExactIn (isAToB : Bool) (amountIn minOut : Nat)
  | swapExactOut (isAToB : Bool) (amountOut maxIn : Nat)

def Call.isSwap : Call → Bool
  | swapExactIn .. | swapExactOut .. => true
  | _ => false

def call : Call → Option (Nat × Pool)
  | .addLiquidity amountA amountB minLp => pool.addLiquidity caller amountA amountB minLp
  | .removeLiquidity lpAmount minA minB => pool.removeLiquidity caller lpAmount minA minB
  | .swapExactIn isAToB amountIn minOut => pool.swapExactIn isAToB amountIn minOut
  | .swapExactOut isAToB amountOut maxIn => pool.swapExactOut isAToB amountOut maxIn

def run (calls : List (Text × Call)) : Pool :=
  calls.foldl (fun pool made => ((pool.call made.1 made.2).map Prod.snd).getD pool) pool

/-- The product of the reserves over the square of the supply. -/
def backing : ℚ := pool.reserveA * pool.reserveB / pool.totalLp ^ 2

/-! ## Calls -/

structure Sound : Prop where
  shares : pool.lp.total (fun _ lp => lp) = pool.totalLp
  backed : pool.totalLp ^ 2 ≤ pool.reserveA * pool.reserveB
  empty : pool.totalLp = 0 → pool.reserveA = 0 ∧ pool.reserveB = 0

/-- What a call does; the backing is compared without fractions. -/
structure Step (next : Pool) (isSwap : Bool) : Prop where
  sound : next.Sound
  product : isSwap = true → pool.reserveA * pool.reserveB ≤ next.reserveA * next.reserveB
  kept : 0 < pool.totalLp → pool.reserveA * pool.reserveB * next.totalLp ^ 2 ≤
    next.reserveA * next.reserveB * pool.totalLp ^ 2

theorem afterFee_le (amount : Nat) : pool.afterFee amount ≤ amount := by
  refine Nat.div_le_of_le_mul ?_
  rw [mul_comm]
  exact mul_le_mul_right amount (sub_le 10000 pool.feeBps)

section

variable {pool caller} (sound : pool.Sound) {next : Pool} {result : Nat}

include sound

/-- Both reserves for a share do not fall. -/
theorem Sound.step_of_each (exist : pool.totalLp ≠ 0)
    (shares : next.lp.total (fun _ lp => lp) = next.totalLp)
    (byA : pool.reserveA * next.totalLp ≤ next.reserveA * pool.totalLp)
    (byB : pool.reserveB * next.totalLp ≤ next.reserveB * pool.totalLp)
    (empty : next.totalLp = 0 → next.reserveA = 0 ∧ next.reserveB = 0) : Step pool next false := by
  have both := Nat.mul_le_mul byA byB
  have backed := mul_le_mul_left (next.totalLp ^ 2) sound.backed
  refine ⟨⟨shares, le_of_mul_le_mul_right ?_ (pow_pos (pos_of_ne_zero exist) 2), empty⟩, nofun,
    fun _ => ?_⟩
  · linarith
  · linarith

theorem Sound.addLiquidity {amountA amountB minLp : Nat}
    (made : pool.addLiquidity caller amountA amountB minLp = some (result, next)) :
    Step pool next false := by
  obtain ⟨⟨-, -, positive, -⟩, done⟩ := ite_none_right_eq_some.mp made
  cases done
  have shares := (KeyedMap.total_addTo pool.lp caller (pool.lpMinted amountA amountB)).trans
    (congrArg (· + _) sound.shares)
  by_cases none : pool.totalLp = 0
  · obtain ⟨noA, noB⟩ := sound.empty none
    refine ⟨⟨shares, ?_, fun drained => ?_⟩, nofun, fun exist => absurd none exist.ne'⟩
    · simpa [lpMinted, none, noA, noB] using sqrt_le' _
    · exact absurd (positive none) (by simp_all)
  · have share {reserve amount : Nat}
        (le : pool.lpMinted amountA amountB ≤ amount * pool.totalLp / reserve) :
        reserve * (pool.totalLp + pool.lpMinted amountA amountB) ≤ (reserve + amount) * pool.totalLp := by
      have floor := (mul_le_mul_right reserve le).trans (div_mul_le_self _ _)
      linarith
    have least : pool.lpMinted amountA amountB = _ := if_neg none
    refine sound.step_of_each none shares (share ?_) (share ?_) fun drained => absurd drained ?_
    · exact least.trans_le (min_le_left _ _)
    · exact least.trans_le (min_le_right _ _)
    · dsimp only
      omega

theorem Sound.removeLiquidity {lpAmount minA minB : Nat}
    (made : pool.removeLiquidity caller lpAmount minA minB = some (result, next)) :
    Step pool next false := by
  obtain ⟨⟨-, owned, exist, -, -, within, -⟩, done⟩ := ite_none_right_eq_some.mp made
  cases done
  have share (reserve : Nat) : reserve * (pool.totalLp - lpAmount) ≤
      (reserve - lpAmount * reserve / pool.totalLp) * pool.totalLp := by
    rw [Nat.mul_sub, Nat.sub_mul]
    exact Nat.sub_le_sub_left ((div_mul_le_self _ _).trans_eq (mul_comm _ _)) _
  refine sound.step_of_each exist ?_ (share _) (share _) fun drained => ?_
  · have written := KeyedMap.total_insert pool.lp (fun _ lp => lp) caller
      ((pool.lp.lookup caller).getD 0 - lpAmount)
    have shares := sound.shares
    simp only [KeyedMap.weightAt, Option.map_id'] at written
    dsimp only
    omega
  · have all := le_antisymm within (Nat.sub_eq_zero_iff_le.mp drained)
    simp [all, mul_div_cancel_left₀ _ exist]

/-- A swap pays in at least what the product of the reserves asks for. -/
theorem Sound.exchange {isAToB : Bool} {amountIn amountOut : Nat}
    (full : 0 < pool.reserveIn isAToB) (within : amountOut < pool.reserveOut isAToB)
    (paid : pool.reserveIn isAToB * amountOut ≤ amountIn * (pool.reserveOut isAToB - amountOut)) :
    Step pool (pool.exchange isAToB amountIn amountOut) true := by
  have exist : pool.totalLp ≠ 0 := fun none => by
    cases isAToB <;> simp [reserveIn, sound.empty none] at full
  have product : pool.reserveIn isAToB * pool.reserveOut isAToB ≤
      (pool.reserveIn isAToB + amountIn) * (pool.reserveOut isAToB - amountOut) := by
    obtain ⟨rest, split⟩ := Nat.exists_eq_add_of_le within.le
    rw [split, Nat.add_sub_cancel_left] at paid ⊢
    linarith
  cases isAToB with
  | true => exact ⟨⟨sound.shares, sound.backed.trans product, fun none => absurd none exist⟩,
      fun _ => product, fun _ => mul_le_mul_right _ product⟩
  | false =>
    replace product := (mul_comm _ _).trans_le (product.trans_eq (mul_comm _ _))
    exact ⟨⟨sound.shares, sound.backed.trans product, fun none => absurd none exist⟩,
      fun _ => product, fun _ => mul_le_mul_right _ product⟩

theorem Sound.call {made : Call} (ran : pool.call caller made = some (result, next)) :
    Step pool next made.isSwap := by
  cases made with
  | addLiquidity => exact sound.addLiquidity ran
  | removeLiquidity => exact sound.removeLiquidity ran
  | swapExactIn isAToB amountIn =>
    obtain ⟨⟨-, full, -, -, within⟩, done⟩ := ite_none_right_eq_some.mp ran
    cases done
    refine sound.exchange full within ?_
    have floor := div_mul_le_self (pool.reserveOut isAToB * pool.afterFee amountIn)
      (pool.reserveIn isAToB + pool.afterFee amountIn)
    refine le_trans ?_ (mul_le_mul_right _ (pool.afterFee_le amountIn))
    rw [Nat.mul_sub]
    refine le_sub_of_add_le ?_
    linarith
  | swapExactOut isAToB amountOut =>
    obtain ⟨⟨-, full, -, within, exist, -⟩, done⟩ := ite_none_right_eq_some.mp ran
    cases done
    refine sound.exchange full within ((lt_mul_div_succ _ (pos_of_ne_zero exist)).le.trans ?_)
    rw [mul_comm]
    exact mul_le_mul_left _ (pool.afterFee_le _)

theorem Sound.run (calls : List (Text × Call)) : (pool.run calls).Sound := by
  induction calls generalizing pool with
  | nil => exact sound
  | cons made rest ih =>
    refine ih ?_
    dsimp only
    cases ran : pool.call made.1 made.2 with
    | none => exact sound
    | some outcome => exact (sound.call ran).sound

end

/-- Whatever calls a pool has seen, its shares add up to their supply, which is 0 exactly when both
reserves are; no swap lowers the product of the reserves, and no call the backing of the shares. -/
theorem pool_never_loses_to_rounding {tokenA tokenB : Text} {feeBps : Nat} {deployed : Pool}
    (isDeployed : init tokenA tokenB feeBps = some deployed) (calls : List (Text × Call)) :
    let pool := deployed.run calls
    pool.lp.total (fun _ lp => lp) = pool.totalLp ∧
      (pool.totalLp = 0 ↔ pool.reserveA = 0 ∧ pool.reserveB = 0) ∧
      ∀ caller made result next, pool.call caller made = some (result, next) →
        (made.isSwap = true → pool.reserveA * pool.reserveB ≤ next.reserveA * next.reserveB) ∧
        (0 < pool.totalLp → 0 < next.totalLp → pool.backing ≤ next.backing) := by
  obtain ⟨within, isInit⟩ := dite_none_right_eq_some.mp isDeployed
  cases isInit
  have first : Sound ⟨feeBps, 0, 0, 0, ∅, within.2⟩ := ⟨rfl, le_rfl, fun _ => ⟨rfl, rfl⟩⟩
  have sound := first.run calls
  refine ⟨sound.shares, ⟨sound.empty, fun none => ?_⟩, fun caller made result next ran => ?_⟩
  · simpa [none.1] using sound.backed
  · have step := sound.call ran
    refine ⟨step.product, fun before after => ?_⟩
    unfold backing
    rw [div_le_div_iff₀ (by positivity) (by positivity)]
    exact_mod_cast step.kept before

/-- A pool after two deposits, and a swap that rounds in its favour. -/
theorem shares_add_up_after_swap : ∃ deployed result next, init [1] [2] 30 = some deployed ∧
      let pool := deployed.run [([7], .addLiquidity 400 900 0), ([9], .addLiquidity 100 300 0)]
      pool.call [8] (.swapExactIn true 100 0) = some (result, next) ∧
        pool.lp.total (fun _ lp => lp) = pool.totalLp ∧ pool.totalLp = 750 ∧
        pool.reserveA * pool.reserveB ≤ next.reserveA * next.reserveB ∧ pool.backing ≤ next.backing := by
  let deployed : Pool := ⟨30, 0, 0, 0, ∅, by decide⟩
  let pool := deployed.run [([7], .addLiquidity 400 900 0), ([9], .addLiquidity 100 300 0)]
  obtain ⟨shares, -, keeps⟩ := @pool_never_loses_to_rounding [1] [2] 30 deployed rfl
    [([7], .addLiquidity 400 900 0), ([9], .addLiquidity 100 300 0)]
  have swapped : ∃ outcome ∈ pool.call [8] (.swapExactIn true 100 0),
      pool.totalLp = 750 ∧ outcome.2.totalLp = 750 := by
    decide +kernel
  obtain ⟨⟨result, next⟩, ran, before, after⟩ := swapped
  obtain ⟨product, backing⟩ := keeps [8] (.swapExactIn true 100 0) result next ran
  exact ⟨deployed, result, next, rfl, ran, shares, before, product rfl,
    backing (before ▸ by decide) (after ▸ by decide)⟩

end Pool

end EgoChain.Contracts
