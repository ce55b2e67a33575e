import EgoChain.Foundations.Checks
import EgoChain.Foundations.KeyedMap
import EgoChain.Market.Records

/-!
# Keys, bodies and signatures of the market

What the market reads of a transaction before it looks at its store: the shape
of the transaction, the body in its call arguments and the signature of a
settlement.  The JSON reader, the hash, the keys and the address formats of the
other networks are parameters.
-/

namespace EgoChain.Market

open EgoChain.Foundations EgoChain.Ledger

/-- The libraries the market calls. -/
structure Env where
  /-- `EGO_MARKET_HEIGHT`, or the height built in. -/
  activationHeight : Option Nat
  /-- `ego_core::hash_data`. -/
  hashData : Text → Text
  /-- The address of a key of 32 bytes. -/
  addressOf : Text → Text
  /-- `VerifyingKey::from_bytes` takes the key. -/
  isKey : Text → Bool
  /-- `verify_strict` of a key, a message and a signature. -/
  verifyStrict : Text → Text → Text → Bool
  base58Decode : Text → Option Text
  /-- A Cardano address of this network with a payment key, and one with a script. -/
  cardanoKeyAddress : Text → Bool
  cardanoScriptAddress : Text → Bool
  /-- The signature checks of the Solana and the Cardano escrow. -/
  verifyOutsideCancel : Trade → Text → Except Text Unit
  offerBody : Text → Except Text OfferBody
  offerRef : Text → Except Text OfferRef
  tradeOpenBody : Text → Except Text TradeOpenBody
  lockBody : Text → Except Text LockBody
  tradeRef : Text → Except Text TradeRef
  disputeBody : Text → Except Text DisputeBody
  feedbackBody : Text → Except Text FeedbackBody
  settleBody : Text → Except Text SettleBody
  arbiterBody : Text → Except Text ArbiterBody
  /-- `SettleBody::canonical_json`. -/
  canonicalJson : SettleBody → Text

def Env.hashHex (env : Env) (bytes : Text) : Text := (env.hashData bytes).toHex

def ruleActive (env : Env) (height : Nat) : Bool := env.activationHeight.any fun start => start ≤ height

def arbiterSchedule : List (Nat × List Text) :=
  [(0, [utf8 "egot1ypxxgvy0y5g8gynm3y2tkegzggs64rcts5dq7sl8"])]

def arbitersAt (height : Nat) : List Text :=
  ((arbiterSchedule.reverse.find? fun entry => entry.1 ≤ height).map Prod.snd).getD []

/-! ## Formats -/

def validId (id : Text) : Bool :=
  id.length = 66 && id.startsWith (utf8 "0x") &&
    (id.drop 2).all fun byte => Text.isAsciiDigit byte || (97 ≤ byte && byte ≤ 102)

def validFiat (fiat : Text) : Bool := fiat.length = 3 && fiat.all Text.isAsciiUppercase

def validCountry (country : Text) : Bool := country.length = 2 && country.all Text.isAsciiUppercase

def validMethod (method : Text) : Bool :=
  !method.isEmpty && method.length ≤ maxMethodLen && method.all fun byte =>
      Text.isAsciiLowercase byte || Text.isAsciiDigit byte || byte = 95 || byte = 45

/-- Some character is a control character and not a line feed. -/
def hasControl : Text → Bool
  | [] => false
  | byte :: rest =>
    (byte < 32 && byte ≠ 10) || byte = 127 ||
      (byte = 194 && rest.head?.any fun next => 128 ≤ next && next < 160) || hasControl rest

def validText (text : Text) (most : Nat) : Bool := text.length ≤ most && !hasControl text

def base58Len (env : Env) (text : Text) (length : Nat) : Bool :=
  text.length ≤ 90 && (env.base58Decode text).any fun bytes => bytes.length = length

variable (env : Env) (family : Family) (text : Text)

def validChainAddress : Bool :=
  match family with
  | .ego => false
  | .evm =>
    text.length = 42 && text.startsWith (utf8 "0x") && (text.drop 2).all Text.isAsciiHexdigit
  | .tron =>
    text.length = 34 && text.startsWith (utf8 "T") && text.all fun byte =>
        (Text.isAsciiDigit byte || Text.isAsciiLowercase byte || Text.isAsciiUppercase byte) &&
          !(byte = 48 || byte = 79 || byte = 73 || byte = 108)
  | .solana => base58Len env text 32
  | .cardano => env.cardanoKeyAddress text

def validEscrowContract : Bool :=
  match family with
  | .cardano => env.cardanoScriptAddress text
  | other => validChainAddress env other text

def validChainTx : Bool :=
  let hash (digits : Text) : Bool := digits.length = 64 && digits.all Text.isAsciiHexdigit
  match family with
  | .solana => base58Len env text 64
  | .evm => (text.afterStart (utf8 "0x")).any hash
  | .tron => hash text
  | .cardano => hash text
  | .ego => false

def nativeSigLen : Family → Option Nat
  | .evm => some 65
  | .tron => some 65
  | .solana => some 64
  | .cardano => some 96
  | .ego => none

variable (maker id arbiter addr tradeId : Text) (height : Nat) (outcome : Outcome) (by' : Role)
  (body : SettleBody) (tx : LedgerTx)

def verifyNativeCancel (trade : Trade) (sigHex : Text) : Except Text Unit := do
  let info ← need (assetInfo trade.asset) (utf8 "the trade's asset is not listed")
  let length ← need (nativeSigLen info.family) (utf8 "an EGOC settlement carries no outside signature")
  let _ ← need (sigHex.fromHexOf length)
    (utf8 "the outside signature for " ++ info.network ++ utf8 " is " ++ Text.decimal length ++
      utf8 " hex bytes")
  match info.family with
  | .solana => env.verifyOutsideCancel trade sigHex
  | .cardano => env.verifyOutsideCancel trade sigHex
  | _ => .ok ()

/-! ## Keys of the store -/

/-- Eight bytes, the most significant first. -/
def be8 (number : Nat) : Text := (leBytes 8 number).reverse

def offerPrefix : Text := utf8 "market:o:"
def tradePrefix : Text := utf8 "market:t:"
def profilePrefix : Text := utf8 "market:p:"
def feedbackPrefix : Text := utf8 "market:fb:"
def pairPrefix : Text := utf8 "market:pair:"
def bookPrefix : Text := utf8 "market:ob:"
def makerOffersStart : Text := utf8 "market:mo:"
def userTradesStart : Text := utf8 "market:ut:"
def arbiterCasesStart : Text := utf8 "market:arb:"
def arbiterAddrPrefix : Text := utf8 "market:arbaddr:"
def leaderboardPrefix : Text := utf8 "market:lb:"
def escrowKey : Text := utf8 "market:escrow"

def offerKey : Text := offerPrefix ++ id
def tradeKey : Text := tradePrefix ++ id
def profileKey : Text := profilePrefix ++ addr

def feedbackKey (role : Role) : Text :=
  feedbackPrefix ++ tradeId ++ colon :: role.asStr

def pairKey (first second : Text) : Text :=
  if first ≤ second then pairPrefix ++ first ++ colon :: second
  else pairPrefix ++ second ++ colon :: first

def bookKey (asset fiat : Text) (side : Side) (height : Nat) (id : Text) : Text :=
  bookPrefix ++ asset ++ colon :: fiat ++ colon :: side.asStr ++ colon :: be8 height ++ id

def makerOffersPrefix : Text := makerOffersStart ++ maker ++ [colon]
def makerOfferKey : Text := makerOffersPrefix maker ++ id
def userTradesPrefix : Text := userTradesStart ++ addr ++ [colon]

def userTradeKey (id : Text) : Text :=
  userTradesPrefix addr ++ be8 height ++ id

def arbiterAddrKey : Text := arbiterAddrPrefix ++ arbiter

def arbiterCaseKey (id : Text) : Text :=
  arbiterCasesStart ++ arbiter ++ colon :: be8 height ++ id

def leaderboardKey (completed : Nat) (addr : Text) : Text := leaderboardPrefix ++ be8 completed ++ addr

/-! ## Shapes of transactions -/

def isEscrowDeposit : Bool := tx.recipient = marketEscrowAddr

def isSettle : Bool := tx.sender = marketEscrowAddr

def touchesMarket : Bool := isEscrowDeposit tx || isSettle tx

def bodyHash (callArgs : Text) : Text :=
  env.hashHex (utf8 "ego/market/body/v1:" ++ callArgs)

def opMemo (txType callArgs : Text) : Option Text :=
  match txType.afterStart (utf8 "market_") with
  | none => none
  | some op =>
    if txType ∈ signedOps then
      some (utf8 "market:" ++ op ++ colon :: bodyHash env callArgs)
    else none

def checkSignedShape : Except Text Unit := do
  ensure (tx.txType ∈ signedOps)
    (utf8 "transfer " ++ tx.hash ++ utf8 " to the market escrow is not a market operation")
  ensure (tx.sender ≠ [] ∧ isReservedSystemSource tx.sender = false)
    (utf8 "market operations come from user accounts")
  let key ← need (tx.publicKeyEd25519.fromHexOf 32)
    (utf8 "market operations carry the sender's Ed25519 key")
  ensure (env.addressOf key = tx.sender)
    (utf8 "market trading needs an account whose address comes from its Ed25519 key")
  ensure (2 ≤ tx.txVersion ∧ tx.chainId = marketChainId)
    (utf8 "market operations must be signed as testnet v2 transactions")
  ensure (tx.nonce ≠ 0) (utf8 "market operations carry a nonce")
  ensure (tx.callArgs.length ≤ maxBodyBytes)
    (utf8 "a market body is at most " ++ Text.decimal maxBodyBytes ++ utf8 " bytes")
  let expected := (opMemo env tx.txType tx.callArgs).getD []
  ensure (tx.memo = some expected)
    (tx.hash ++ utf8 " does not commit to its body: the memo must be " ++ expected)

def SettleBody.txHash : Text :=
  utf8 "0x" ++ env.hashHex (utf8 "ego/market/settle/v1:" ++ env.canonicalJson body)

def checkSettleShape : Except Text SettleBody := do
  ensure (tx.txType = txSettle)
    (utf8 "tx " ++ tx.hash ++ utf8 " from the market escrow is not a settlement")
  ensure (tx.signature = [] ∧ tx.publicKeyEd25519 = [] ∧ tx.dilithiumSignature = [] ∧ tx.nonce = 0)
    (utf8 "settlement " ++ tx.hash ++
      utf8 " carries its authority in the body, not a signature or nonce")
  ensure (tx.callArgs.length ≤ 1024) (utf8 "a settlement body is at most 1024 bytes")
  let body ← (env.settleBody tx.callArgs).mapError fun error => utf8 "settlement body: " ++ error
  ensure (tx.callArgs = env.canonicalJson body)
    (utf8 "settlement " ++ tx.hash ++ utf8 " body is not in canonical form")
  ensure (tx.hash = body.txHash env) (utf8 "settlement " ++ tx.hash ++ utf8 " body/hash mismatch")
  ensure (validId body.tradeId) (utf8 "the settlement names no trade")
  ensure (body.nativeSig.all fun sig =>
      (sig.length = 128 || sig.length = 130 || sig.length = 192) && sig.all Text.isAsciiHexdigit)
    (utf8 "the outside signature is not 64, 65 or 96 hex bytes")
  return body

/-! ## Signatures of settlements -/

def settleMessage : Text :=
  utf8 "ego/market/auth/v1:1:" ++ tradeId ++ colon :: outcome.asStr ++ colon :: by'.asStr

def settleAuthMessage (nativeSig : Option Text) : Text :=
  match nativeSig with
  | some sig => settleMessage tradeId outcome by' ++ colon :: sig
  | none => settleMessage tradeId outcome by'

/-- The address whose key signed the settlement. -/
def verifyAuth : Except Text Text := do
  let key ← need (body.pubkey.fromHexOf 32) (utf8 "the settlement key is not 32 hex bytes")
  let signature ← need (body.signature.fromHexOf 64)
    (utf8 "the settlement signature is not 64 hex bytes")
  ensure (env.isKey key) (utf8 "the settlement key is not a valid Ed25519 key")
  ensure (env.verifyStrict key
      (settleAuthMessage body.tradeId body.outcome body.by' body.nativeSig) signature)
    (utf8 "the settlement signature does not verify")
  return env.addressOf key

/-! ## Offers -/

/-- `i32::abs`, which leaves the smallest number as it is. -/
def absI32 (number : Int) : Int := if number = -2147483648 then number else Int.natAbs number

/-- The rule that ties the payout address of an offer to its asset and side. -/
def validatePayout (info : AssetInfo) (side : Side) (payoutAddress : Option Text) : Except Text Unit :=
  match info.family, side, payoutAddress with
  | .ego, _, some _ => .error (utf8 "EGOC offers take no payout address")
  | _, .sell, some _ =>
    .error (utf8 "on a sell offer the buyer names the payout address when taking it")
  | .ego, .buy, none => .ok ()
  | _, .buy, none =>
    .error (utf8 "say where you receive " ++ info.symbol ++ utf8 " on " ++ info.network)
  | family, .buy, some address =>
    ensure (validChainAddress env family address)
      (address.clip 64 ++ utf8 " is not a " ++ info.network ++ utf8 " address")
  | _, .sell, none => .ok ()

def validateOfferBody (body : OfferBody) : Except Text Unit := do
  let info ← need (assetInfo body.asset)
    (body.asset.clip 16 ++ utf8 " is not traded on this market yet")
  ensure (validFiat body.fiat) (utf8 "the fiat currency must be a three-letter ISO code")
  match body.price with
  | .fixed price =>
    ensure (price ≠ 0 ∧ price ≤ maxPriceMicro) (utf8 "the fixed price is out of range")
  | .marginBps margin =>
    ensure (absI32 margin ≤ maxMarginBps)
      (utf8 "the margin is limited to +/-" ++ Text.signedDecimal maxMarginBps ++ utf8 " basis points")
  let (low, high) := tradeLimits body.asset
  ensure (low ≤ body.minMicro ∧ body.maxMicro ≤ high ∧ body.minMicro ≤ body.maxMicro)
    (utf8 "trade limits must sit within " ++ Text.decimal low ++ utf8 "..=" ++ Text.decimal high ++
      utf8 " micro-units with min <= max")
  validatePayout env info body.side body.payoutAddress
  ensure (body.methods ≠ [] ∧ body.methods.length ≤ maxMethods)
    (utf8 "an offer lists 1 to " ++ Text.decimal maxMethods ++ utf8 " payment methods")
  ensure (body.methods.all validMethod) (utf8 "payment methods are lowercase ids like bank_transfer")
  ensure body.methods.Nodup (utf8 "a payment method is listed twice")
  ensure (body.country.all validCountry) (utf8 "the country must be a two-letter ISO code")
  ensure (validText body.terms maxTermsBytes)
    (utf8 "terms are at most " ++ Text.decimal maxTermsBytes ++ utf8 " bytes of text")
  ensure (minPaymentWindowSecs ≤ body.paymentWindowSecs ∧ body.paymentWindowSecs ≤ maxPaymentWindowSecs)
    (utf8 "the payment window is " ++ Text.signedDecimal minPaymentWindowSecs ++ utf8 "..=" ++
      Text.signedDecimal maxPaymentWindowSecs ++ utf8 " seconds")

end EgoChain.Market
