import EgoChain.Foundations.Texts

/-!
# Transactions

The fields of a ledger transaction that the modelled rules read, the addresses
the protocol owns, and the tests that sort transactions by their source.
-/

namespace EgoChain.Ledger

open EgoChain.Foundations

def maxU64 : Nat := 2 ^ 64 - 1
def satAdd (a b : Nat) : Nat := min (a + b) maxU64
def satMul (a b : Nat) : Nat := min (a * b) maxU64

theorem satAdd_eq {a b : Nat} (fits : a + b ≤ maxU64) : satAdd a b = a + b := Nat.min_eq_left fits

theorem satAdd_min (first second : Nat) :
    satAdd (min first maxU64) second = min (first + second) maxU64 := by
  unfold satAdd
  omega

structure LedgerTx where
  hash : Text
  sender : Text
  recipient : Text
  amount : UInt64 := 0
  memo : Option Text := none
  timestamp : Int := 0
  signature : Text := []
  blockHeight : Option Nat := none
  nonce : UInt64 := 0
  publicKeyEd25519 : Text := []
  dilithiumPubkey : Text := []
  dilithiumSignature : Text := []
  txType : Text := utf8 "transfer"
  feeUegoc : UInt64 := 0
  priorityFeeUegoc : UInt64 := 0
  wasmCode : Text := []
  contractAddr : Text := []
  entrypoint : Text := []
  callArgs : Text := []
  txVersion : UInt8 := 0
  chainId : UInt8 := 0
  deriving DecidableEq

/-! ## Addresses -/

def ecosystemAddr : Text := utf8 "egot1ecosystem00000000000000000000000000000000"
def foundationAddr : Text := utf8 "egot1foundation00000000000000000000000000000000"
def nodePoolAddr : Text := utf8 "egot1nodepool000000000000000000000000000000000"
def stakingAddr : Text := utf8 "egot1staking000000000000000000000000000000000"
def stakingPoolAddr : Text := utf8 "egot1stakingpool0000000000000000000000000000000"
def faucetAddrFull : Text := utf8 "egot1faucet000000000000000000000000000000000000"
def computeEscrowAddr : Text := utf8 "egot1computeescrow000000000000000000000000000"
def reservationEscrowAddr : Text := utf8 "egot1reserveescrow00000000000000000000000000"
def storageEscrowAddr : Text := utf8 "egot1storageescrow000000000000000000000000"
def clusterEscrowAddr : Text := utf8 "egot1clusterescrow00000000000000000000000"
def creditsBurnAddr : Text := utf8 "egot1burncredits00000000000000000000000000000"
def marketEscrowAddr : Text := utf8 "egot1marketescrow000000000000000000000000000"
def shieldedPoolAddr : Text := utf8 "egot1shieldedpool000000000000000000000000000"

def isEscrowSource (addr : Text) : Bool :=
  addr = reservationEscrowAddr || addr = computeEscrowAddr || addr = clusterEscrowAddr ||
    addr = storageEscrowAddr || addr.startsWith (utf8 "egot1storagefees")

def isReservedSystemSource (addr : Text) : Bool :=
  addr.isEmpty || addr = nodePoolAddr || addr = stakingPoolAddr || addr = faucetAddrFull ||
    addr.startsWith (utf8 "egot1faucet") || addr.startsWith (utf8 "egot1genesis") ||
    addr.startsWith (utf8 "egot1staking") || addr.startsWith (utf8 "egot1system") ||
    addr.startsWith (utf8 "egot1coverage") || addr.startsWith (utf8 "egot1nodereward") ||
    addr.startsWith (utf8 "egot1collateral") || addr.startsWith (utf8 "egot1slashpool") ||
    addr.startsWith (utf8 "egot1storagefees") || addr.startsWith (utf8 "egot1burn") ||
    addr.startsWith (utf8 "egot1nodepool") || addr.startsWith (utf8 "egot1rewards") ||
    addr.startsWith (utf8 "egot1shielded") || addr.startsWith (utf8 "egot1marketescrow")

end EgoChain.Ledger
