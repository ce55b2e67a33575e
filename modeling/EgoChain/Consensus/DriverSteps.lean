import EgoChain.Consensus.DriverInvariant

/-!
# What each call of a driver keeps

Votes, proposals, verdicts, ticks and give-ups each keep the invariant of a
session.  Moving on needs to know what the new chain of certificates rests on,
which only the other nodes' records can tell.
-/

namespace EgoChain.Consensus

open EgoChain.Foundations List KeyedMap

namespace Session

variable {setting : HeightSetting} {address : Address} {made more : Signature → Prop}
  {session start : Session}

theorem Ok.mono (ok : session.Ok setting made address) (grows : ∀ sig, made sig → more sig) :
    session.Ok setting more address :=
  { ok with
    opening := ok.opening.mono grows
    engine := ok.engine.mono grows
    tables := ok.tables.mono grows
    history := ok.history.mono grows }

theorem Ok.seated (ok : session.Ok setting made address) :
    setting.committeeForAttempt session.attempt = some session.members := by
  have seated := (HeightView.skipChain_ok ok.opening.chain).1
  rw [ok.opening.attemptIs] at seated
  exact seated

/-- A call of the engine and the queue behind it keep the invariant. -/
theorem Ok.called {actions : List Action} (ok : start.Ok setting made address) (order : IterOrder)
    (now : Nat) (called : Called setting (start.world setting made)
      start session actions) (tables : session.Tables setting made)
    (own : ∀ message ∈ (session.apply setting address order now actions).signed,
      made ⟨address, message⟩) :
    (session.apply setting address order now actions).Ok setting made address := by
  obtain ⟨out, turn, kept⟩ := apply_turn tables order now called ok.engine own
  exact ok.turn turn own kept

/-! ## Nothing signed is forgotten -/

variable {message : TmProposal} {round attempt : Nat} {value : ValueId} {verdict : Bool}
  {reported : Option TmLock}
  {actions : List Action} {block : Block} {waited reachable : Bool} {vote : TmSkipVote}
  {committee : List Address} {earlier : Nat → Option (List Address)} {voter : Address}
  {member : Nat}

section Signed

variable {order : IterOrder} {now : Nat} {said : Message}

theorem persist_signed (setting : HeightSetting) (session : Session) :
    (session.persist setting).signed = session.signed := by
  rcases persist_eq setting session with ⟨-, same⟩ | ⟨-, wal, -, same⟩ <;> rw [same]

theorem takePolVotes_signed {hash : Text} (votes : List (Address × Signature)) :
    (session.takePolVotes setting order now round hash votes).1.signed = session.signed := by
  induction votes generalizing session with
  | nil => rfl
  | cons entry rest ih =>
    unfold takePolVotes
    split
    · exact ih
    · split <;> exact ih

/-- The session with a give-up that is signed and not yet saved. -/
abbrev withGiveUp (session : Session) (vote : TmSkipVote) : Session :=
  { session with gaveUp := some vote, signed := session.signed ++ [vote.sig.message] }

theorem onGiveUp_signed {message : TmSkip} :
    (session.onGiveUp setting message).1.signed = session.signed := by
  unfold onGiveUp collectAhead keepLockBlock
  dsimp only
  repeat' split
  all_goals rfl

variable (mem : said ∈ session.signed)

include mem

theorem mem_signed_onVote {message : TmVote} :
    said ∈ (session.onVote setting address order now message).signed := by
  unfold onVote
  repeat' split
  any_goals exact mem
  all_goals
    refine mem_signed_apply order now _ ?_
    exact mem

theorem mem_signed_weigh {index : Nat} :
    said ∈ (session.weigh setting address order now message index actions).signed := by
  unfold weigh
  dsimp only
  split
  all_goals
    refine mem_signed_apply order now _ ?_
    exact mem

theorem mem_signed_takeProposal :
    said ∈ (session.takeProposal setting address order now message).signed := by
  unfold takeProposal
  dsimp only
  repeat' split
  any_goals exact mem
  all_goals refine mem_signed_weigh ?_
  · rw [takePolVotes_signed]
    exact mem
  · exact mem

theorem mem_signed_propose :
    said ∈ (session.propose setting address order now block verdict).signed := by
  unfold propose
  repeat' split
  any_goals exact mem
  refine mem_signed_apply order now _ ?_
  exact mem_append_left _ mem

theorem mem_signed_maybeGiveUp : said ∈ (session.maybeGiveUp setting address waited reachable).signed := by
  unfold Session.maybeGiveUp
  split
  case isFalse => exact mem
  case isTrue =>
  split
  case h_1 => exact mem
  case h_2 reported found =>
  dsimp only
  rcases persist_eq setting (session.withGiveUp (session.giveUpVote setting address reported))
    with ⟨-, same⟩ | ⟨-, wal, -, same⟩
  all_goals
    rw [same]
    exact mem_append_left _ mem

end Signed

/-! ## Tables -/

theorem Tables.name (tables : session.Tables setting made) (text : Text) :
    { session with names := session.names.orInsert (setting.valueId text) text }.Tables setting
      made :=
  { tables with names := fun there => put_rule (lookup_of_orInsert there) rfl tables.names }

theorem Tables.payload (tables : session.Tables setting made) (block : Block) : { session with
      payloads := session.payloads.orInsert (setting.valueId block.hash) block }.Tables setting
        made :=
  { tables with payloads := fun there => put_rule (lookup_of_orInsert there) rfl tables.payloads }

/-! ## Votes -/

/-- A signed vote of a member is one the engine may be told about. -/
theorem Ok.told (ok : session.Ok setting made address)
    (place : session.members.idxOf? voter = some member) {kind : VoteKind} {value : Option Text}
    (signed : made ⟨voter, tmVoteMessageAt session.attempt kind setting.height round value⟩) :
    (session.world setting made).told kind round member
      (value.map setting.valueId) := by
  refine Or.inr (Or.inr fun v same => ?_)
  obtain ⟨text, rfl, rfl⟩ := Option.map_eq_some_iff.mp same
  exact ⟨session.members, voter, text, ok.seated, place, rfl, signed⟩

theorem Tables.noteVote (tables : session.Tables setting made)
    (place : session.members.idxOf? voter = some member) (kind : VoteKind) (round : Nat)
    (text : Text)
    (signed : made ⟨voter, tmVoteMessageAt session.attempt kind setting.height round (some text)⟩) :
    { session with
      sigs := Consensus.addSig session.sigs (kind, round, setting.valueId text) member
        ⟨voter, tmVoteMessageAt session.attempt kind setting.height round (some text)⟩ }.Tables
        setting made :=
  tables.addSig (kind, round, setting.valueId text) member signed (by
    rintro rfl
    exact ⟨voter, text, place, rfl, rfl⟩)

theorem Ok.onVote (ok : session.Ok setting made address) (order : IterOrder) (now : Nat)
    {message : TmVote} (u32 : message.round ≤ maxU32) (signed : made message.sig)
    (own : ∀ said ∈ (session.onVote setting address order now message).signed, made ⟨address, said⟩) :
    (session.onVote setting address order now message).Ok setting made address := by
  revert own
  unfold Session.onVote
  split
  case isTrue => exact fun _ => ok
  case isFalse here =>
  obtain ⟨sameHeight, sameAttempt⟩ := not_or.mp here
  rw [not_not] at sameHeight sameAttempt
  split
  case h_1 => exact fun _ => ok
  case h_2 member place =>
  split
  case isTrue => exact fun _ => ok
  case isFalse =>
  split
  case isTrue => exact fun _ => ok
  case isFalse verified =>
  have sigIs := tmSignatureOk_iff.mp (by simpa using verified)
  rw [sameHeight, sameAttempt] at sigIs
  rw [sigIs] at signed ⊢
  have moves := session.engine.moves_onVote _ order now message.kind message.round member _ u32
    (fun _ _ => ok.told place signed)
  intro own
  cases value : message.value with
  | none =>
    rw [value] at moves own
    exact ok.called order now (Called.engine moves) { ok.tables with } own
  | some text =>
    rw [value] at moves own signed
    have tables := (ok.tables.name text).noteVote place message.kind message.round text signed
    exact ok.called order now (Called.engine moves) { tables with } own

/-! ## Proposals -/

/-- The prevotes that come with a proposal are calls of the engine like any others. -/
theorem takePolVotes_called {before : List Action} (ok : start.Ok setting made address)
    (order : IterOrder) (now : Nat) (u32 : round ≤ maxU32) (hash : Text)
    {votes : List (Address × Signature)} (signed : ∀ entry ∈ votes, made entry.2)
    (called : Called setting (start.world setting made) start session
      before) (tables : session.Tables setting made) :
    Called setting (start.world setting made) start
        (session.takePolVotes setting order now round hash votes).1
        (before ++ (session.takePolVotes setting order now round hash votes).2) ∧
      (session.takePolVotes setting order now round hash votes).1.Tables setting made := by
  induction votes generalizing session before with
  | nil =>
    rw [takePolVotes, append_nil]
    exact ⟨called, tables⟩
  | cons entry rest ih =>
    obtain ⟨voter, sig⟩ := entry
    have restSigned := fun entry mem => signed entry (mem_cons_of_mem _ mem)
    unfold takePolVotes
    split
    case h_1 => exact ih restSigned called tables
    case h_2 member place =>
    split
    case isFalse => exact ih restSigned called tables
    case isTrue verified =>
    have here := signed (voter, sig) mem_cons_self
    rw [tmSignatureOk_iff.mp verified] at here ⊢
    have noted := tables.noteVote place .prevote round hash here
    have seatIs : start.members.idxOf? voter = some member := by
      rw [← called.place.members]
      exact place
    have told := ok.told seatIs (by
      rw [← called.place.attempt]
      exact here)
    have moves := session.engine.moves_onVote _ order now .prevote round member
      _ u32 (fun _ _ => told)
    have joined : Called setting (start.world setting made) start
        { session with
          engine := (session.engine.onVote order now .prevote round member
            (some (setting.valueId hash))).1
          sigs := addSig session.sigs (.prevote, round, setting.valueId hash) member
            ⟨voter, tmVoteMessageAt session.attempt .prevote setting.height round
              (some hash)⟩ } _ :=
      called.next moves
    have next := ih restSigned joined { noted with }
    rw [append_assoc] at next
    exact next

theorem weigh_called (order : IterOrder) (now : Nat) (u32 : message.round ≤ maxU32) (index : Nat)
    (called : Called setting (start.world setting made) start session
      actions) (tables : session.Tables setting made) :
    ∃ asked joined, session.weigh setting address order now message index actions =
        asked.apply setting address order now joined ∧
      Called setting (start.world setting made) start asked joined ∧
      asked.Tables setting made := by
  have known := tables.payload message.block
  unfold Session.weigh
  dsimp only
  split
  case h_1 verdict judged =>
    have moves := session.engine.moves_onProposal
      (start.world setting made) order now message.round index
      _ message.polRound verdict u32 (by
        rintro rfl
        exact tables.verdicts judged)
    exact ⟨_, _, rfl, called.next moves, { known with }⟩
  case h_2 =>
    refine ⟨_, _, rfl, { called with place := { called.place with } }, { known with
        waiting := forall_mem_append.mpr ⟨tables.waiting, forall_mem_singleton.mpr u32⟩
        checks := ?_ }⟩
    dsimp only
    split
    · exact tables.checks
    · exact forall_mem_append.mpr ⟨tables.checks, forall_mem_singleton.mpr rfl⟩

section

variable (ok : session.Ok setting made address) (order : IterOrder) (now : Nat)
  (u32 : message.round ≤ maxU32) (signed : ∀ entry ∈ message.polVotes, made entry.2)

include ok order now u32 signed

/-- A proposal is ignored, or handed to the engine and the queue carried out. -/
theorem takeProposal_called : session.takeProposal setting address order now message = session ∨
      ∃ asked joined, session.takeProposal setting address order now message =
          asked.apply setting address order now joined ∧
        Called setting (session.world setting made) session asked
          joined ∧
        asked.Tables setting made := by
  have named := ok.tables.name message.block.hash
  have untouched : Called setting (session.world setting made)
      session { session with
        names := session.names.orInsert (setting.valueId message.block.hash) message.block.hash }
      [] :=
    Called.engine (.refl _)
  unfold Session.takeProposal
  split
  case isTrue => exact Or.inl rfl
  case isFalse inOrder =>
  split
  case isTrue => exact Or.inl rfl
  case isFalse =>
  dsimp only
  split
  case isTrue => exact Or.inl rfl
  case isFalse =>
  split
  case isTrue => exact Or.inl rfl
  case isFalse =>
  right
  split
  case h_1 polRound pol =>
    rw [pol] at inOrder
    have below : polRound ≤ maxU32 := by
      simp only [Option.any_some, decide_eq_true_eq] at inOrder
      omega
    obtain ⟨called, tables⟩ := takePolVotes_called ok order now below message.block.hash
      signed untouched named
    exact weigh_called order now u32 _ called tables
  case h_2 => exact weigh_called order now u32 _ untouched named

theorem Ok.takeProposal (own : ∀ said ∈ (session.takeProposal setting address order now message).signed,
      made ⟨address, said⟩) :
    (session.takeProposal setting address order now message).Ok setting made address := by
  rcases takeProposal_called ok order now u32 signed with same | ⟨asked, joined, same, called, tables⟩
  · rw [same]
    exact ok
  · rw [same] at own ⊢
    exact ok.called order now called tables own

end

/-! ## Verdicts -/

theorem releaseWaiting_moves (world : World) (order : IterOrder) (now : Nat) (verdict : Bool)
    (approved : verdict = true → world.accepts value) {ready : List Waiting}
    (each : ∀ waiting ∈ ready, waiting.value = value ∧ waiting.round ≤ maxU32)
    (engine : Tendermint) :
    Moves world engine (releaseWaiting order now verdict ready engine).1
      (releaseWaiting order now verdict ready engine).2 := by
  induction ready generalizing engine with
  | nil => exact .refl engine
  | cons waiting rest ih =>
    obtain ⟨same, u32⟩ := each waiting mem_cons_self
    have moves := engine.moves_onProposal world order now waiting.round waiting.sender
      waiting.value waiting.polRound verdict u32 (same ▸ approved)
    exact moves.trans (ih (fun other mem => each other (mem_cons_of_mem _ mem)) _)

variable (ok : session.Ok setting made address)

include ok

variable (order : IterOrder) (now : Nat)

theorem Ok.settle (approved : verdict = true → setting.Accepts value)
    (own : ∀ said ∈ (session.settle setting address order now value verdict).signed, made ⟨address, said⟩) :
    (session.settle setting address order now value verdict).Ok setting made address := by
  have ready : ∀ waiting ∈ session.waiting.filter fun waiting => waiting.value = value,
      waiting.value = value ∧ waiting.round ≤ maxU32 := by
    intro waiting mem
    obtain ⟨inside, same⟩ := mem_filter.mp mem
    exact ⟨by simpa using same, ok.tables.waiting waiting inside⟩
  have released := releaseWaiting_moves (session.world setting made)
    order now verdict approved ready session.engine
  have moves := released.trans (Tendermint.moves_onValue _ order now value verdict _ approved)
  have tables := ok.tables
  refine ok.called order now (Called.engine moves)
    { tables with waiting := ?waiting, verdicts := ?verdicts } own
  case waiting =>
    intro waiting mem
    exact tables.waiting waiting (mem_filter.mp mem).1
  case verdicts =>
    intro other found
    rcases lookup_of_insert found with ⟨rfl, same⟩ | before
    · exact approved same.symm
    · exact tables.verdicts before

/-! ## Proposing and ticking -/

theorem Ok.propose (approved : verdict = true → setting.Accepts (setting.valueId block.hash))
    (own : ∀ said ∈ (session.propose setting address order now block verdict).signed, made ⟨address, said⟩) :
    (session.propose setting address order now block verdict).Ok setting made address := by
  revert own
  have tables := ok.tables
  unfold Session.propose
  split
  case h_1 => exact fun _ => ok
  case h_2 round pending =>
  split
  case isTrue =>
    exact fun _ => { ok with engine := { ok.engine with }, tables := { tables with } }
  case isFalse ready =>
  split
  case isTrue => exact fun _ => ok
  case isFalse fits =>
  split
  case h_1 => exact fun _ => ok
  case h_2 me sat =>
  intro own
  simp only [not_or, Bool.not_eq_true', Bool.not_eq_false] at fits
  have accepted := approved fits.2.2
  have atRound := not_not.mp (not_or.mp (not_or.mp ready).2).1
  have u32 : round ≤ maxU32 := by
    have bounded := (ok.engine.engineOk.remembers (by simp [ok.engine.sameSeat, sat])).bounded
    rw [← atRound]
    exact bounded
  have moves := session.engine.moves_onProposal (session.world setting made) order now round me
    _ none true u32 (fun _ => accepted)
  refine ok.called order now
    { moves := moves
      place := ⟨rfl, rfl, rfl, rfl, rfl, rfl, rfl⟩
      wal := rfl
      decisions := rfl
      kept := fun _ => mem_append_left _
      spoke := forall_mem_append.mpr
        ⟨fun _ => Or.inl, forall_mem_singleton.mpr (Or.inr (Or.inl rfl))⟩ }
    { tables with
      names := fun there => put_rule (lookup_of_insert there) rfl tables.names
      payloads := fun there => put_rule (lookup_of_insert there) rfl tables.payloads
      verdicts := ?verdicts } own
  intro value found
  rcases lookup_of_insert found with ⟨rfl, -⟩ | before
  · exact accepted
  · exact tables.verdicts before

/-! ## Giving up -/

omit ok in
/-- The lock to report is the engine's, with prevotes that are signed. -/
theorem Tables.lockToReport (tables : session.Tables setting made)
    (found : session.lockToReport = some reported) :
    session.engine.locked = reported.map (fun lock => (lock.round, setting.valueId lock.value)) ∧
      ∀ lock, reported = some lock →
        lock.attempt = (if compactSkip session.attempt then some session.attempt else none) ∧
          ∀ sig ∈ lock.sigs, made sig := by
  unfold Session.lockToReport at found
  split at found
  case h_1 unlocked =>
    cases found
    exact ⟨unlocked, by simp⟩
  case h_2 round value locked =>
  obtain ⟨lock, proved, rfl⟩ := Option.map_eq_some_iff.mp found
  obtain ⟨roundIs, valueIs, attemptIs, signed⟩ := tables.polFor proved
  refine ⟨by simp [locked, roundIs, valueIs], ?_⟩
  rintro other same
  cases same
  exact ⟨attemptIs, signed⟩

omit ok in
/-- The message of a give-up, below the compact threshold and above. -/
theorem giveUpVote_plain (plain : compactSkip session.attempt = false) :
    session.giveUpVote setting address reported =
      ⟨address, reported, ⟨address, .skip setting.height session.attempt
        (reported.map fun lock => (lock.round, lock.value))⟩⟩ := by
  unfold giveUpVote
  rw [plain]
  rfl

omit ok in
theorem giveUpVote_compact (compact : compactSkip session.attempt = true) :
    session.giveUpVote setting address reported =
      ⟨address, reported.or session.carried, ⟨address, .skipV2 setting.height session.attempt
        ((reported.or session.carried).map fun lock =>
          (lock.attempt.getD session.attempt, lock.round, lock.value))⟩⟩ := by
  unfold giveUpVote
  rw [compact]
  rfl

omit ok in
theorem giveUpVote_spoken :
    (session.giveUpVote setting address reported).sig.message.spokenAt = some session.attempt := by
  cases compact : compactSkip session.attempt with
  | false =>
    rw [giveUpVote_plain compact]
    rfl
  | true =>
    rw [giveUpVote_compact compact]
    rfl

omit ok in
/-- A give-up is no vote. -/
theorem votesAre_giveUp (abreast : Abreast setting session.signed session.attempt session.engine.memory)
    (address : Address) (reported : Option TmLock) :
    VotesAre setting (session.withGiveUp (session.giveUpVote setting address reported)).signed
      session.attempt session.engine.memory where
  votes mem := by
    refine abreast.votes ((mem_append.mp mem).resolve_right fun new => ?_)
    have same := mem_singleton.mp new
    cases compact : compactSkip session.attempt with
    | false => rw [giveUpVote_plain compact] at same; cases same
    | true => rw [giveUpVote_compact compact] at same; cases same
  released voted :=
    let ⟨text, spelled, mem⟩ := abreast.released voted
    ⟨text, spelled, mem_append_left _ mem⟩

omit ok in
/-- The give-up reports the lock in the node's memory, or what it inherited. -/
theorem record_of_giveUp
    (record : Record setting made address session.signed session.attempt session.members
      session.carried session.engine.memory)
    (abreast : Abreast setting session.signed session.attempt session.engine.memory)
    (tables : session.Tables setting made) (found : session.lockToReport = some reported) :
    Record setting made address
      (session.signed ++ [(session.giveUpVote setting address reported).sig.message])
      session.attempt session.members session.carried session.engine.memory := by
  obtain ⟨lockedIs, attemptIs⟩ := tables.lockToReport found
  have votesAre := votesAre_giveUp abreast address reported
  cases compact : compactSkip session.attempt with
  | false =>
    rw [giveUpVote_plain compact] at votesAre ⊢
    refine { record with votesAre, gaveUp := ?gaveUp, gaveUpV2 := ?gaveUpV2 }
    case gaveUp =>
      intro height locked mem
      rcases mem_append.mp mem with old | new
      · exact absurd old abreast.noGiveUp
      · obtain ⟨-, -, rfl⟩ := Message.skip.inj (mem_singleton.mp new)
        rw [Option.map_map]
        exact lockedIs
    case gaveUpV2 =>
      intro height locked mem
      exact absurd (show _ ∈ session.signed by simpa using mem) abreast.noGiveUpV2
  | true =>
    rw [giveUpVote_compact compact] at votesAre ⊢
    refine { record with votesAre, gaveUp := ?gaveUp, gaveUpV2 := ?gaveUpV2 }
    case gaveUp =>
      intro height locked mem
      exact absurd (show _ ∈ session.signed by simpa using mem) abreast.noGiveUp
    case gaveUpV2 =>
      intro height locked mem
      rcases mem_append.mp mem with old | new
      · exact absurd old abreast.noGiveUpV2
      obtain ⟨-, -, rfl⟩ := Message.skipV2.inj (mem_singleton.mp new)
      cases reported with
      | none => exact Or.inr ⟨lockedIs, by simp⟩
      | some lock =>
        have here := (attemptIs lock rfl).1
        rw [compact] at here
        exact Or.inl ⟨lock.round, lock.value, by simp [here], lockedIs⟩

theorem Ok.unsaved : session.Unsaved setting made address :=
  { ok.toPlaced with
    past := ok.history.toPast
    spoken := ok.spoken
    abreast := fun member notGivenUp => ok.abreast notGivenUp member }

theorem Ok.persist : (session.persist setting).Ok setting made address := by
  rcases persist_eq setting session with ⟨-, same⟩ | ⟨member, wal, written, same⟩ <;> rw [same]
  · exact ok
  · have unsaved := ok.unsaved
    exact Unsaved.written { unsaved with engine := { unsaved.engine with }, tables := { unsaved.tables with } }
      member { written with } rfl

omit ok in
theorem giveUpVote_signed
    (own : made ⟨address, (session.giveUpVote setting address reported).sig.message⟩)
    (tables : session.Tables setting made) (found : session.lockToReport = some reported) :
    ∀ sig ∈ (session.giveUpVote setting address reported).sigs, made sig := by
  have reportedSigned : ∀ lock, reported = some lock → ∀ sig ∈ lock.sigs, made sig :=
    fun lock same => ((tables.lockToReport found).2 lock same).2
  intro sig mem
  cases compact : compactSkip session.attempt with
  | false =>
    rw [giveUpVote_plain compact] at own mem
    rcases mem_cons.mp mem with rfl | inLock
    · exact own
    · cases same : reported with
      | none => simp [same] at inLock
      | some lock => exact reportedSigned lock same sig (by simpa [same] using inLock)
  | true =>
    rw [giveUpVote_compact compact] at own mem
    rcases mem_cons.mp mem with rfl | inLock
    · exact own
    cases same : reported with
    | some lock => exact reportedSigned lock same sig (by simpa [same] using inLock)
    | none =>
      cases inherited : session.carried with
      | none => simp [same, inherited] at inLock
      | some lock =>
        exact tables.carried inherited sig (by simpa [same, inherited] using inLock)

/-- A node that has just given up. -/
theorem Ok.gaveUp (member : session.me ≠ none)
    (notGivenUp : session.gaveUp = none) (found : session.lockToReport = some reported)
    (own : ∀ said ∈ (session.withGiveUp (session.giveUpVote setting address reported)).signed,
      made ⟨address, said⟩) :
    (session.withGiveUp (session.giveUpVote setting address reported)).Unsaved setting made
      address := by
  have abreast := ok.abreast notGivenUp member
  refine { ok.toPlaced with
      engine := { ok.engine with }
      tables := { ok.tables with gaveUp := ?gaveUp }
      observer := fun away => absurd away member
      past := { own := own, records := ?records, committed := ok.history.committed }
      spoken := ?spoken
      abreast := nofun }
  case gaveUp =>
    intro vote same
    cases same
    exact giveUpVote_signed (own _ (by simp)) ok.tables found
  case records =>
    intro message attempt mem spoken
    by_cases current : attempt = session.attempt
    · subst current
      exact ⟨_, _, _, record_of_giveUp (record_of_abreast ok.engine ok.opening member abreast)
        abreast ok.tables found⟩
    have unchanged : ∀ other ∈
        (session.withGiveUp (session.giveUpVote setting address reported)).signed,
        other.spokenAt = some attempt → other ∈ session.signed := by
      intro other inside there
      rcases mem_append.mp inside with old | new
      · exact old
      · rw [mem_singleton.mp new, giveUpVote_spoken] at there
        exact absurd (Option.some.inj there).symm current
    obtain ⟨members, carried, memory, record⟩ :=
      ok.history.records (unchanged message mem spoken) spoken
    exact ⟨members, carried, memory, record.mono (fun _ => id) (fun _ => mem_append_left _) unchanged⟩
  case spoken =>
    intro message attempt mem spoken
    rcases mem_append.mp mem with old | new
    · exact ok.spoken old spoken
    · rw [mem_singleton.mp new, giveUpVote_spoken] at spoken
      exact le_of_eq (Option.some.inj spoken).symm

theorem Ok.maybeGiveUp (waited reachable : Bool)
    (own : ∀ said ∈ (session.maybeGiveUp setting address waited reachable).signed,
      made ⟨address, said⟩) :
    (session.maybeGiveUp setting address waited reachable).Ok setting made address := by
  revert own
  unfold Session.maybeGiveUp
  split
  case isFalse => exact fun _ => ok
  case isTrue due =>
  simp only [giveUpDue, Bool.and_eq_true, Option.isNone_iff_eq_none] at due
  obtain ⟨⟨⟨⟨⟨⟨notGivenUp, -⟩, seated⟩, -⟩, -⟩, -⟩, -⟩ := due
  have member : session.me ≠ none := by
    rintro away
    rw [away] at seated
    cases seated
  split
  case h_1 => exact fun _ => ok
  case h_2 reported found =>
  dsimp only
  rcases persist_eq setting (session.withGiveUp (session.giveUpVote setting address reported))
    with ⟨away, -⟩ | ⟨-, wal, written, same⟩
  · exact absurd away member
  rw [same]
  intro own
  have unsaved := ok.gaveUp member notGivenUp found own
  have saved : { session.withGiveUp (session.giveUpVote setting address reported) with
      wal := some wal }.Ok setting made address :=
    Unsaved.written
      { unsaved with engine := { unsaved.engine with }, tables := { unsaved.tables with } }
      member { written with } rfl
  exact { saved with
    engine := { saved.engine with }
    tables := { saved.tables with
      giveUps := fun there =>
        put_rule (lookup_of_insert there) (saved.tables.gaveUp rfl) saved.tables.giveUps } }

omit ok in
theorem tick_fst (waited reachable : Bool) :
    (session.tick setting address order now waited reachable).1 =
      ({ session with engine := (session.engine.tick order now).1 }.apply setting address order now
        (session.engine.tick order now).2).maybeGiveUp setting address waited reachable := by
  unfold Session.tick
  rcases session.engine.tick order now with ⟨engine, actions⟩
  rfl

theorem Ok.tick (waited reachable : Bool)
    (own : ∀ said ∈ (session.tick setting address order now waited reachable).1.signed, made ⟨address, said⟩) :
    (session.tick setting address order now waited reachable).1.Ok setting made address := by
  have called : Called setting (session.world setting made) session
      { session with engine := (session.engine.tick order now).1 }
      (session.engine.tick order now).2 :=
    Called.engine (Tendermint.moves_tick _ order now session.engine)
  rw [tick_fst] at own ⊢
  have ticked := ok.called order now called { ok.tables with }
    fun said mem => own said (mem_signed_maybeGiveUp mem)
  exact ticked.maybeGiveUp waited reachable own

/-! ## Give-ups of others -/

omit ok in
theorem lookup_trimAhead {fuel : Nat} {ahead : KeyedMap Nat (KeyedMap Address TmSkipVote)}
    {votes : KeyedMap Address TmSkipVote}
    (found : (trimAhead fuel ahead).lookup attempt = some votes) :
    ahead.lookup attempt = some votes := by
  induction fuel generalizing ahead with
  | zero => exact found
  | succ fuel ih =>
    unfold trimAhead at found
    split at found
    case isFalse => exact found
    case isTrue =>
    split at found
    case h_2 => exact found
    case h_1 lowest _ =>
    have kept := ih found
    by_cases same : attempt = lowest.1
    · rw [same, AList.lookup_erase] at kept
      cases kept
    · rwa [AList.lookup_erase_ne same] at kept

theorem Ok.collectAhead (u32 : attempt ≤ maxU32) (signed : ∀ sig ∈ vote.sigs, made sig) :
    (session.collectAhead setting attempt vote committee earlier).1.Ok setting made address := by
  unfold Session.collectAhead
  split
  case h_1 => exact ok
  case h_2 =>
  refine { ok with engine := { ok.engine with }, tables := { ok.tables with ahead := ?ahead } }
  case ahead =>
    intro other votes found
    rcases lookup_of_insert (lookup_trimAhead found) with ⟨rfl, rfl⟩ | before
    · refine ⟨u32, ?_⟩
      intro voter found inside
      rcases lookup_of_insert inside with ⟨-, rfl⟩ | old
      · exact signed
      cases before : session.ahead.lookup other with
      | none =>
        rw [before] at old
        cases old
      | some kept =>
        rw [before] at old
        exact (ok.tables.ahead before).2 old
    · exact ok.tables.ahead before

theorem Ok.keepLockBlock (message : TmSkip) :
    (session.keepLockBlock setting message).Ok setting made address := by
  unfold Session.keepLockBlock
  split
  case h_2 => exact ok
  case h_1 lock block _ _ =>
  split
  case isFalse => exact ok
  case isTrue =>
    have tables := (ok.tables.name block.hash).payload block
    exact { ok with engine := { ok.engine with }, tables := { tables with } }

theorem Ok.onGiveUp {message : TmSkip} (u32 : message.attempt ≤ maxU32)
    (signed : ∀ sig ∈ message.vote.sigs, made sig) :
    (session.onGiveUp setting message).1.Ok setting made address := by
  unfold Session.onGiveUp
  dsimp only
  repeat' split
  any_goals exact ok
  · exact ok.collectAhead u32 signed
  · have kept := ok.keepLockBlock message
    exact { kept with
      engine := { kept.engine with }
      tables := { kept.tables with
        giveUps := fun there => put_rule (lookup_of_insert there) signed kept.tables.giveUps } }

end Session

end EgoChain.Consensus
