import EgoChain.Foundations.KeyedMap
import EgoChain.Foundations.Texts

/-!
# What the chain knows about nodes

Nodes register, check in, prove coverage and storage, and are drawn into
committees by the weight they earn with it.  A weight is versioned: a change made
in one period counts from the next period on.
-/

namespace EgoChain.Nodes

open EgoChain.Foundations List

/-! ## Heights, periods and epochs -/

def checkinFromHeight : Nat := 32000
def fastStartHeight : Nat := 32350
def drsFromHeight : Nat := 32601
def drawV2FromHeight : Nat := 32640
def missRuleFromHeight : Nat := 32750
def missRuleUntilHeight : Nat := 32766
def drawV3FromHeight : Nat := 32851
def splitFromHeight : Nat := 32901
def tendermintFromHeight : Nat := 33101
def shortEpochFromHeight : Nat := 40601
def wideCommitteeFromHeight : Nat := shortEpochFromHeight
def widenFromHeight : Nat := 42292
def widenV2FromHeight : Nat := 42311
def tmCarryFromHeight : Nat := 42397
def liveSeatsFromHeight : Nat := 79841

def epoch : Nat := 100
def shortEpoch : Nat := 20
def shortEpochFirst : Nat := (shortEpochFromHeight - 1) / epoch
def weightLead : Nat := 50

variable (height : Nat)

def periodOf : Nat := (height + weightLead) / epoch

def epochOf : Nat :=
  if height < shortEpochFromHeight then (height - 1) / epoch
  else shortEpochFirst + (height - shortEpochFromHeight) / shortEpoch

def missRuleActive : Bool :=
  missRuleFromHeight ≤ height && height < missRuleUntilHeight

/-! ## Records -/

/-- A number that changes between periods. -/
structure Versioned where
  active : Nat := 0
  next : Nat := 0
  since : Nat := 0
  deriving DecidableEq

/-- `Versioned::at`. -/
def Versioned.at' (value : Versioned) (period : Nat) : Nat :=
  if value.since ≤ period then value.next else value.active

structure NodeRec where
  idx : Nat := 0
  popKey : Text := []
  streak : Nat := 0
  lastCheckin : Int := 0
  storageBytes : Nat := 0
  storageUntil : Int := 0
  coverage : Nat := 0
  coverageAt : Int := 0
  served : Nat := 0
  weight : Versioned := {}
  earned : Nat := 0
  deriving DecidableEq

/-- The nodes drawn for an epoch. -/
structure Rota where
  seed : Text := []
  members : List Text := []

structure GenesisValidator where
  address : Text
  dilithiumPubkey : Text

/-- What the node rules take from elsewhere. -/
structure NodeEnv where
  blake3 : Text → Text
  genesis : List GenesisValidator

/-- The records of the node rules, by what they are about. -/
structure NodeState where
  records : KeyedMap Text NodeRec := ∅
  rotas : KeyedMap Nat Rota := ∅
  /-- For each epoch, a bit for each place of the rota. -/
  ready : KeyedMap Nat Text := ∅
  tmReady : KeyedMap Nat Text := ∅
  /-- The makers of the last blocks, the latest first. -/
  lastMakers : List Text := []
  /-- An epoch, and the turns missed in it. -/
  misses : KeyedMap Text (Nat × Nat) := ∅
  /-- The Dilithium keys of registered validators. -/
  dilithium : KeyedMap Text Text := ∅

/-! ## Lists of nodes -/

/-- Bit `i` of a bit set. -/
def bit (bits : Text) (i : Nat) : Bool :=
  (bits[i / 8]?).any fun byte => byte.toNat.testBit (i % 8)

/-- The members whose bit is set. -/
def markedMembers (rota : Rota) (bits : Text) : List Text :=
  (rota.members.zipIdx.filter fun entry => bit bits entry.2).map Prod.fst

namespace NodeState

variable (state : NodeState)

def loadRota (epoch : Nat) : Option Rota := state.rotas.lookup epoch

def readyMembers (height : Nat) : List Text :=
  markedMembers ((state.loadRota (epochOf height)).getD {})
    ((state.ready.lookup (epochOf height)).getD [])

def tmReadyIn (epoch : Nat) : List Text :=
  markedMembers ((state.loadRota epoch).getD {}) ((state.tmReady.lookup epoch).getD [])

def missedTurns (addr : Text) (epoch : Nat) : Nat :=
  (((state.misses.lookup addr).filter fun entry => entry.1 = epoch).map Prod.snd).getD 0

end NodeState

def minCommittee : Nat := 3
def missLimit : Nat := 2
def tmCarryEpochs : Nat := 16

/-- Add the members of one list that are not yet in another. -/
def addMissing (ready more : List Text) : List Text :=
  more.foldl (fun ready addr => if addr ∈ ready then ready else ready ++ [addr]) ready

/-- Go back through earlier epochs until a committee can be formed. -/
def carryReady (state : NodeState) : List Nat → List Text → List Text
  | [], ready => ready
  | epoch :: rest, ready =>
    let merged := addMissing ready (state.tmReadyIn epoch)
    if minCommittee ≤ merged.length then merged else carryReady state rest merged

namespace NodeState

variable (state : NodeState) (height : Nat)

def tmReadyMembers : List Text :=
  let epoch := epochOf height
  let ready := state.tmReadyIn epoch
  if minCommittee ≤ ready.length ∨ epoch ≤ shortEpochFirst then ready
  else
    let reach := if tmCarryFromHeight ≤ height then tmCarryEpochs else 1
    let earlier := (List.range' (epoch - reach) (epoch - (epoch - reach))).reverse
    carryReady state (earlier.filter fun e => shortEpochFirst ≤ e) ready

def tendermintActive : Bool :=
  tendermintFromHeight ≤ height && minCommittee ≤ (state.tmReadyMembers height).length

/-- The nodes that a committee is drawn from. -/
def drawPool : List Text :=
  if state.tendermintActive height then state.tmReadyMembers height
  else
    let epoch := epochOf height
    let ready := state.readyMembers height
    let pool :=
      if minCommittee ≤ ready.length then ready
      else ((state.loadRota epoch).getD {}).members
    if missRuleActive height then
      let answering := pool.filter fun addr => state.missedTurns addr epoch < missLimit
      if minCommittee ≤ answering.length then answering else pool
    else pool

/-- The weight of a node in a draw; every node has at least one lot. -/
def lots (state : NodeState) (period : Nat) (addr : Text) : Nat :=
  max (((state.records.lookup addr).map fun rec' => rec'.weight.at' period).getD 0) 1

end NodeState

/-! ## The makers of the last blocks -/

def lastMakersLimit : Nat := 16
def wideLastMakersLimit : Nat := 32

/-- `last_makers_keep`. -/
def lastMakersKeep (height : Nat) : Nat :=
  if wideCommitteeFromHeight ≤ height then wideLastMakersLimit else lastMakersLimit

def NodeState.recordMaker (state : NodeState) (height : Nat) (miner : Text) : NodeState :=
  if height < drawV3FromHeight ∨ miner = [] then state
  else { state with lastMakers := (miner :: state.lastMakers).take (lastMakersKeep height) }

def makerCooldown (poolLen : Nat) : Nat := min (poolLen / 2) lastMakersLimit

/-- The makers that are remembered, after blocks with the given heights and makers. -/
theorem take_lastMakers_recordMaker (blocks : List (Nat × Text)) (state : NodeState)
    (weighted : ∀ block ∈ blocks, drawV3FromHeight ≤ block.1 ∧ block.2 ≠ []) {cooldown : Nat}
    (short : cooldown ≤ lastMakersLimit) :
    (blocks.foldl (fun state block => state.recordMaker block.1 block.2) state).lastMakers.take
        cooldown =
      ((blocks.map Prod.snd).reverse ++ state.lastMakers).take cooldown := by
  induction blocks generalizing state with
  | nil => rfl
  | cons block rest ih =>
    obtain ⟨⟨late, named⟩, there⟩ := forall_mem_cons.mp weighted
    rw [foldl_cons, ih _ there]
    have recorded : (state.recordMaker block.1 block.2).lastMakers =
        (block.2 :: state.lastMakers).take (lastMakersKeep block.1) := by
      unfold NodeState.recordMaker
      rw [if_neg (by rintro (early | empty); exacts [absurd late (by omega), named empty])]
    have kept : lastMakersLimit ≤ lastMakersKeep block.1 := by
      unfold lastMakersKeep
      split <;> decide
    rw [recorded, map_cons, reverse_cons, append_assoc, singleton_append,
      take_append, take_append, take_take]
    congr 2
    omega

end EgoChain.Nodes
