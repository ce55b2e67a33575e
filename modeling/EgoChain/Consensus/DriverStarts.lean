import EgoChain.Consensus.DriverSteps

/-!
# Starting and moving on

A node starts from its vote record or, without one, at the first attempt, and
it moves to a later attempt with an engine of its own for the new committee.
Both ways the invariant holds of the new session, given what the chain of
certificates rests on.
-/

namespace EgoChain.Consensus

open EgoChain.Foundations List Tendermint Option

variable {skips : List TmSkipCert} {able : Bool} {chain : SkipChain} {order : IterOrder} {now : Nat}
  {said : Message} {members : List Address}

theorem Footing.carried_signed {setting : HeightSetting} {made : Signature → Prop} {attempt : Nat}
    {miners : List Address} {carried : Option TmLock} {lock : TmLock}
    (footing : Footing setting made skips attempt members miners carried)
    (found : carried = some lock) : ∀ sig ∈ lock.sigs, made sig := by
  subst found
  obtain ⟨cert, inside, vote, source, reported, origin⟩ :=
    HeightView.carried_origin footing.chain rfl
  intro sig mem
  rw [TmLock.sigs, origin.pol] at mem
  exact footing.lock_signed inside origin.foremost.1 origin.foremost.2.1.1 sig mem

theorem seat_eq_some {address : Address} {place : Nat}
    (found : seat members address able = some place) : members.idxOf? address = some place := by
  unfold seat at found
  split at found
  case isTrue => exact found
  case isFalse => cases found

namespace Session

variable {setting : HeightSetting} {address : Address} {made more : Signature → Prop}
  {session : Session} {saved : Option Saved} {message : TmProposal}

section

variable (engineIs : session.engine = Tendermint.rebuild setting.height session.members.length
  session.me {} (setting.boundBy session.carried) saved)

include engineIs

/-- An engine rebuilt from a vote record, or from nothing, is in order. -/
theorem fits_of_rebuild
    (seated : ∀ {place}, session.me = some place → session.members.idxOf? address = some place)
    (accepted : ∀ {lock}, session.carried = some lock → setting.Accepts (setting.valueId lock.value))
    (readable : ∀ state, saved = some state → state.height = setting.height ∧
      state.memory.Ok (seats session.members.length) setting.Blank
        (setting.heardBy made session.attempt) session.me ∧
      state.Bound setting.Accepts (setting.boundBy session.carried)) :
    session.EngineFits setting address made := by
  have inside : session.me.filter (· < session.members.length) = session.me := by
    cases sat : session.me with
    | none => rfl
    | some place =>
      obtain ⟨below, -⟩ := List.idxOf?_eq_some_iff.mp (seated sat)
      simp [below]
  refine ⟨?_, ?_, ?_, seated⟩
  · rw [engineIs]
    refine rebuild_ok rfl rfl fun state same => ?_
    rw [inside]
    exact ⟨(readable state same).1, (readable state same).2.1⟩
  · rw [engineIs]
    refine rebuild_bound ?_ fun state same => ?_
    · intro value same
      obtain ⟨lock, found, rfl⟩ := map_eq_some_iff.mp same
      exact accepted found
    · obtain ⟨height, memory, bound⟩ := readable state same
      exact ⟨height, memory.oneVote, bound⟩
  · rw [engineIs, (rebuild_seat _ _ _ _ _ _).1, inside]

theorem size_of_rebuild :
    session.engine.n = session.members.length ∧ session.engine.height = setting.height := by
  rw [engineIs]
  exact (rebuild_seat _ _ _ _ _ _).2

end

theorem not_voted_rebuild {height n : Nat} {me : Option Nat} {timeouts : Timeouts}
    {carried : Option ValueId} (kind : VoteKind) (round : Nat) (value : Option ValueId) :
    ¬ (Tendermint.rebuild height n me timeouts carried none).memory.voted kind round value := by
  rw [rebuild_none]
  intro voted
  cases voted

/-! ## Moving on -/

theorem enter_eq (order : IterOrder) (now : Nat) (able : Bool) (skips : List TmSkipCert)
    (chain : SkipChain) :
    session.enter setting address order now able skips chain =
      ({ session.moveTo setting address able skips chain with
          engine := ((session.moveTo setting address able skips chain).engine.start order now).1
        }.apply setting address order now
          ((session.moveTo setting address able skips chain).engine.start order now).2).persist
        setting := by
  unfold Session.enter
  dsimp only

theorem mem_signed_advance (mem : said ∈ session.signed) :
    said ∈ (session.advance setting address order now able skips).signed := by
  unfold advance
  split
  · exact mem
  · split
    · exact mem
    · rw [enter_eq, persist_signed]
      exact mem_signed_apply order now _ mem

theorem mem_signed_onProposal (mem : said ∈ session.signed) :
    said ∈ (session.onProposal setting address order now able message).signed := by
  unfold onProposal
  dsimp only
  repeat' split
  any_goals exact mem
  · exact mem_signed_takeProposal (mem_signed_advance mem)
  · exact mem_signed_advance mem
  · exact mem_signed_takeProposal mem

variable (ok : session.Ok setting made address)

include ok

theorem Ok.moveTo (able : Bool) (later : session.attempt < attemptOf skips)
    (opening : Opening setting made skips (attemptOf skips) chain.committee chain.miners
      chain.carried) :
    (session.moveTo setting address able skips chain).Ok setting made address := by
  have seated : ∀ {place}, seat chain.committee address able = some place →
      chain.committee.idxOf? address = some place := seat_eq_some
  have fresh : ∀ kind round value,
      ¬ (session.moveTo setting address able skips chain).engine.memory.voted kind round value :=
    not_voted_rebuild
  have engineIs : (session.moveTo setting address able skips chain).engine =
      Tendermint.rebuild setting.height chain.committee.length
        (seat chain.committee address able) {} (setting.boundBy chain.carried) none := rfl
  refine
    { opening := opening
      engine := fits_of_rebuild engineIs seated opening.accepted nofun
      size := size_of_rebuild engineIs
      tables := { ok.tables with
        names := ?names, waiting := nofun, sigs := nofun, precommits := nofun, lockPol := nofun
        carried := opening.carried_signed, gaveUp := nofun, giveUps := nofun
        ahead := fun found => ok.tables.ahead (KeyedMap.lookup_retain found) }
      observer := fun _ => ⟨rfl, fresh⟩
      history := ok.history
      behind := fun found => (ok.behind found).trans (later.le)
      live := fun _ => Or.inl ⟨rfl, fresh, fun record found =>
        Nat.lt_of_le_of_lt (ok.behind found) later⟩ }
  case names =>
    intro value text found
    unfold Session.moveTo at found
    split at found
    case h_1 lock _ => exact (ok.tables.name lock.value).names found
    case h_2 => exact ok.tables.names found

variable (order : IterOrder) (now : Nat) (able : Bool)

theorem Ok.enter (later : session.attempt < attemptOf skips)
    (opening : Opening setting made skips (attemptOf skips) chain.committee chain.miners chain.carried)
    (own : ∀ said ∈ (session.enter setting address order now able skips chain).signed, made ⟨address, said⟩) :
    (session.enter setting address order now able skips chain).Ok setting made address := by
  rw [enter_eq] at own ⊢
  rw [persist_signed] at own
  have moved := ok.moveTo able later opening
  generalize session.moveTo setting address able skips chain = there at moved own ⊢
  have started : Called setting (there.world setting made) there
      { there with engine := (there.engine.start order now).1 }
      (there.engine.start order now).2 :=
    Called.engine (moves_start _ order now there.engine)
  exact (moved.called order now started { moved.tables with } own).persist

/-- Moving on, when every accepted chain over the given certificates is one to rest on. -/
theorem Ok.advance
    (opens : ∀ {chain}, setting.skipChain skips = .ok chain →
      Opening setting made skips (attemptOf skips) chain.committee chain.miners chain.carried)
    (own : ∀ said ∈ (session.advance setting address order now able skips).signed, made ⟨address, said⟩) :
    (session.advance setting address order now able skips).Ok setting made address := by
  revert own
  unfold Session.advance
  split
  case isTrue => exact fun _ => ok
  case isFalse notLater =>
  split
  case h_1 => exact fun _ => ok
  case h_2 chain verified =>
    exact ok.enter order now able (Nat.lt_of_not_le notLater) (opens verified)

theorem Ok.onProposal (u32 : message.round ≤ maxU32) (signed : ∀ entry ∈ message.polVotes, made entry.2)
    (opens : ∀ {chain}, setting.skipChain message.skips = .ok chain →
      Opening setting made message.skips (attemptOf message.skips) chain.committee chain.miners
        chain.carried)
    (own : ∀ said ∈ (session.onProposal setting address order now able message).signed, made ⟨address, said⟩) :
    (session.onProposal setting address order now able message).Ok setting made address := by
  revert own
  unfold Session.onProposal
  split
  case isTrue => exact fun _ => ok
  case isFalse =>
  split
  case isFalse => exact ok.takeProposal order now u32 signed
  case isTrue =>
  split
  case isTrue => exact fun _ => ok
  case isFalse =>
  dsimp only
  split
  case isFalse => exact ok.advance order now able opens
  case isTrue =>
  intro own
  -- What the node signs while it moves on is among what it has signed in the end.
  have moved := ok.advance order now able opens fun said mem =>
    own said (mem_signed_takeProposal mem)
  exact moved.takeProposal order now u32 signed own

end Session

/-! ## Starting -/

section Starting

variable {setting : HeightSetting} {address : Address} {made : Signature → Prop} {wal : Option Wal}
  {signed : List Message} {decisions : List Decision}

/-- The first attempt rests on nothing. -/
theorem opening_first (verified : setting.skipChain [] = .ok chain) :
    Opening setting made [] 0 chain.committee chain.miners chain.carried := by
  have free : chain.carried = none := by
    rcases (HeightView.skipChain_ok verified).2 with ⟨-, miners, locks, accepted, carried, -⟩ |
      ⟨-, last, -, impossible, -⟩
    · obtain ⟨-, rfl⟩ := Prod.mk.inj (Except.ok.inj accepted)
      exact carried
    · cases impossible
  rw [free]
  have footing : Footing setting made [] 0 chain.committee chain.miners none :=
    ⟨rfl, by rw [verified, ← free], by simp, by simp⟩
  refine { footing with
    accepted := nofun
    anchored := fun _ _ => ?_ }
  exact ⟨none, ⟨[], _, _, footing, by simp⟩, absurd rfl⟩

variable {driver : Driver}

theorem build_cases (history : History setting made address wal signed decisions)
    (built : Driver.build setting address able wal = some driver) :
    (wal = none ∧ ∃ chain, setting.skipChain [] = .ok chain ∧
      driver = Driver.startAt setting address able [] chain none none) ∨
    ∃ record chain, wal = some record ∧ setting.skipChain record.skips = .ok chain ∧
      driver = Driver.startAt setting address able record.skips chain (some record)
        record.lockBlock := by
  unfold Driver.build at built
  cases wal with
  | none =>
    left
    cases verified : setting.skipChain [] with
    | error refused => simp [verified] at built
    | ok chain => exact ⟨rfl, chain, rfl, by simpa [verified] using built.symm⟩
  | some record =>
    right
    have walOk := history.walOk rfl
    obtain ⟨members, miners, carried, opening, -⟩ := walOk.place
    have kept : (some record).filter (fun wal => decide (wal.parent = setting.parentHash ∧
        wal.tm.height = setting.height)) = some record := by
      simp [walOk.parent, walOk.height]
    rw [kept] at built
    simp only [map_some, getD_some, opening.chain] at built
    exact ⟨record, _, rfl, opening.chain, (Option.some.inj built).symm⟩

variable {checks : List Check}
  (checked : ∀ check ∈ checks, setting.valueId check.block.hash = check.value)

include checked

/-- The tables a driver starts with. -/
theorem startAt_tables {resume : Option Wal} {lockBlock : Option Block}
    (opening : Opening setting made skips (attemptOf skips) chain.committee chain.miners
      chain.carried)
    (lockPol : ∀ {record lock}, resume = some record → record.lockPol = some lock →
      lock.attempt = (if compactSkip (attemptOf skips) then some (attemptOf skips) else none) ∧
        ∀ sig ∈ lock.sigs, made sig)
    (gaveUp : ∀ {record vote}, resume = some record → record.gaveUp = some vote →
      ∀ sig ∈ vote.sigs, made sig) :
    Session.Tables setting made { Driver.startAt setting address able skips chain resume lockBlock with
        wal, signed, decisions, checks } := by
  have gaveUpSigned : ∀ {vote},
      (Driver.startAt setting address able skips chain resume lockBlock).gaveUp = some vote →
        ∀ sig ∈ vote.sigs, made sig := by
    intro vote found
    obtain ⟨there, -⟩ := filter_eq_some_iff.mp found
    obtain ⟨record, isResume, gave⟩ := bind_eq_some_iff.mp there
    exact gaveUp isResume gave
  refine
    { names := ?names
      payloads := ?payloads
      verdicts := nofun
      checks := checked
      waiting := nofun
      sigs := nofun
      precommits := nofun
      lockPol := ?lockPol
      carried := opening.carried_signed
      decided := nofun
      gaveUp := gaveUpSigned
      giveUps := ?giveUps
      ahead := nofun }
  case names =>
    intro value text found
    have named {hash : Text} (found : AList.lookup value (AList.insert (setting.valueId hash) hash
        (∅ : KeyedMap ValueId Text)) = some text) : setting.valueId text = value := by
      exact KeyedMap.put_rule (KeyedMap.lookup_of_insert found) rfl nofun
    dsimp [Driver.startAt] at found
    split at found
    case h_1 lock _ =>
      rcases KeyedMap.lookup_of_insert found with ⟨rfl, rfl⟩ | before
      · rfl
      · cases lockBlock with
        | none => cases before
        | some block => exact named before
    case h_2 =>
      cases lockBlock with
      | none => cases found
      | some block => exact named found
  case payloads =>
    intro value block found
    dsimp only [Driver.startAt] at found
    split at found
    case h_2 => cases found
    case h_1 kept =>
      exact KeyedMap.put_rule (KeyedMap.lookup_of_insert found) rfl nofun
  case lockPol =>
    intro lock found
    obtain ⟨record, isResume, kept⟩ := bind_eq_some_iff.mp found
    exact lockPol isResume kept
  case giveUps =>
    intro voter vote found
    dsimp only [Driver.startAt] at found
    split at found
    case h_2 => cases found
    case h_1 own gave =>
      exact KeyedMap.put_rule (KeyedMap.lookup_of_insert found) (gaveUpSigned gave) nofun

theorem startAt_first_ok (verified : setting.skipChain [] = .ok chain)
    (history : History setting made address none signed decisions) :
    Session.Ok setting made address { Driver.startAt setting address able [] chain none none with
        wal := none, signed, decisions, checks } := by
  have opening : Opening setting made [] (attemptOf []) chain.committee chain.miners
      chain.carried := opening_first verified
  have noRecord : (if (seat chain.committee address able).isSome = true then
      Option.map Wal.tm none else none) = (none : Option Saved) := by
    split <;> rfl
  have engineIs : (Driver.startAt setting address able [] chain none none).engine =
      Tendermint.rebuild setting.height chain.committee.length
        (seat chain.committee address able) {} (setting.boundBy chain.carried) none :=
    congrArg (Tendermint.rebuild _ _ _ _ _) noRecord
  have fresh : ∀ kind round value,
      ¬ (Driver.startAt setting address able [] chain none none).engine.memory.voted kind round
        value := by
    rw [engineIs]
    exact Session.not_voted_rebuild
  exact {
    opening := opening
    engine := Session.fits_of_rebuild engineIs seat_eq_some opening.accepted nofun
    size := Session.size_of_rebuild engineIs
    tables := startAt_tables checked opening nofun nofun
    observer := fun _ => ⟨rfl, fresh⟩
    history := history
    behind := nofun
    live := fun _ => Or.inl ⟨rfl, fresh, fun _ found => nomatch found⟩ }

theorem startAt_resumed_ok {record : Wal} (verified : setting.skipChain record.skips = .ok chain)
    (history : History setting made address (some record) signed decisions) :
    Session.Ok setting made address
      { Driver.startAt setting address able record.skips chain (some record) record.lockBlock with
        wal := some record, signed, decisions, checks } := by
  have walOk := history.walOk rfl
  obtain ⟨members, miners, carried, opening, bound, place, sat, disciplined⟩ := walOk.place
  obtain rfl : chain = ⟨members, miners, carried⟩ := Except.ok.inj (verified.symm.trans opening.chain)
  have attemptIs := opening.attemptIs
  rw [← attemptIs] at opening disciplined
  have seatIs : ∀ {there}, seat members address able = some there → there = place := fun found =>
    Option.some.inj ((seat_eq_some found).symm.trans sat)
  have engineFits : Session.EngineFits setting address made
      { Driver.startAt setting address able record.skips ⟨members, miners, carried⟩ (some record)
          record.lockBlock with
        wal := some record, signed, decisions, checks } := by
    refine Session.fits_of_rebuild rfl seat_eq_some opening.accepted ?_
    intro state found
    obtain ⟨seated, found⟩ := ite_none_right_eq_some.mp found
    cases found
    obtain ⟨there, isThere⟩ := isSome_iff_exists.mp seated
    refine ⟨walOk.height, ?_, bound⟩
    show record.tm.memory.Ok _ _ _ (seat members address able)
    rw [isThere, seatIs isThere]
    exact disciplined
  refine
    { opening := opening
      engine := engineFits
      size := Session.size_of_rebuild rfl
      tables := startAt_tables checked opening ?lockPol ?gaveUp
      observer := ?observer
      history := history
      behind := ?behind
      live := ?live }
  case lockPol =>
    intro other lock same kept
    cases same
    rw [attemptIs]
    exact walOk.lockPol kept
  case gaveUp =>
    intro other vote same gave
    cases same
    exact walOk.gaveUp gave
  case observer =>
    intro away
    have away : seat members address able = none := away
    unfold Driver.startAt
    rw [away]
    exact ⟨filter_eq_none_iff.mpr (by simp), Session.not_voted_rebuild⟩
  case behind =>
    intro other same
    cases same
    exact attemptIs.ge
  case live =>
    intro member
    obtain ⟨there, isThere⟩ := ne_none_iff_exists'.mp member
    have isThere : seat members address able = some there := isThere
    refine Or.inr ⟨record, rfl, attemptIs.symm, rfl, ?_, fun _ => ?_⟩
    · unfold Driver.startAt
      rw [isThere]
      show record.gaveUp = record.gaveUp.filter fun _ => true
      cases record.gaveUp <;> rfl
    · intro kind round value
      obtain ⟨-, -, -, -, memory⟩ := rebuild_some members.length (some there) {}
        (setting.boundBy carried) walOk.height disciplined.oneVote
      unfold Driver.startAt
      rw [isThere]
      show (Tendermint.rebuild setting.height members.length (some there) {}
        (setting.boundBy carried) (some record.tm)).memory.voted kind round value ↔ _
      rw [memory]

/-- A node that starts is in order. -/
theorem build_ok (history : History setting made address wal signed decisions)
    (built : Driver.build setting address able wal = some driver) :
    Session.Ok setting made address { driver with wal, signed, decisions, checks } := by
  rcases build_cases history built with ⟨rfl, chain, verified, rfl⟩ |
    ⟨record, chain, rfl, verified, rfl⟩
  · exact startAt_first_ok checked verified history
  · exact startAt_resumed_ok checked verified history

end Starting

/-! ## The first turn -/

namespace Session

variable {setting : HeightSetting} {address : Address} {made more : Signature → Prop}
  {session start : Session}

/-- Signing remembered votes again. -/
theorem foldl_signVote_eq (setting : HeightSetting) (address : Address)
    (votes : List (Nat × VoteKind × Option ValueId)) (session : Session) :
    ∃ sigs signed, votes.foldl (fun session vote =>
        session.signVote setting address vote.2.1 vote.1 vote.2.2) session =
        { session with sigs, signed } ∧
      (∀ message ∈ session.signed, message ∈ signed) ∧
      ∀ message ∈ signed, message ∈ session.signed ∨ ∃ kind round value,
        (round, kind, value) ∈ votes ∧ message = .vote session.attempt kind setting.height round
          ((value.map session.nameOf).getD []) := by
  induction votes generalizing session with
  | nil => exact ⟨session.sigs, session.signed, rfl, fun _ => id, fun _ => Or.inl⟩
  | cons vote rest ih =>
    obtain ⟨round, kind, value⟩ := vote
    obtain ⟨sigs, same⟩ := signVote_eq setting address session kind round value
    obtain ⟨restSigs, signed, restIs, kept, spoke⟩ := ih _
    refine ⟨restSigs, signed, ?_, ?_, ?_⟩
    · rw [foldl_cons, restIs, same]
    · intro message mem
      refine kept message ?_
      exact mem_append_left _ mem
    · intro message mem
      rcases spoke message mem with earlier | ⟨k, r, v, inRest, messageIs⟩
      · rcases mem_append.mp earlier with old | new
        · exact Or.inl old
        · exact Or.inr ⟨kind, round, value, mem_cons_self, mem_singleton.mp new⟩
      · exact Or.inr ⟨k, r, v, mem_cons_of_mem _ inRest, messageIs⟩

variable (tables : session.Tables setting made)

include tables

theorem Tables.foldl_signVote {votes : List (Nat × VoteKind × Option ValueId)}
    (seated : ∀ {seat}, session.me = some seat → session.members.idxOf? address = some seat)
    (own : ∀ said ∈ (votes.foldl (fun session vote =>
        session.signVote setting address vote.2.1 vote.1 vote.2.2) session).signed,
      made ⟨address, said⟩) :
    (votes.foldl (fun session vote =>
      session.signVote setting address vote.2.1 vote.1 vote.2.2) session).Tables setting made := by
  induction votes generalizing session with
  | nil => exact tables
  | cons vote rest ih =>
    obtain ⟨round, kind, value⟩ := vote
    rw [foldl_cons] at own ⊢
    obtain ⟨sigs, signed, restIs, kept, -⟩ := foldl_signVote_eq setting address rest _
    have here : made ⟨address, session.voteMessage setting kind round value⟩ := by
      refine own _ ?_
      rw [restIs]
      exact kept _ (mem_append_right _ mem_cons_self)
    exact ih (tables.signVote seated kind round value here) seated own

theorem Tables.keepPol (round : Nat) (value : ValueId)
    {pol : List (Address × Signature)} (signed : ∀ entry ∈ pol, made entry.2) :
    { session with
      sigs := Session.keepPol session.sigs (.prevote, round, value) session.members pol }.Tables
        setting made := by
  induction pol generalizing session with
  | nil => exact { tables with }
  | cons entry rest ih =>
    have restSigned : ∀ entry ∈ rest, made entry.2 := fun other mem =>
      signed other (mem_cons_of_mem _ mem)
    unfold Session.keepPol
    rw [foldl_cons]
    split
    case h_2 => exact ih tables restSigned
    case h_1 member _ =>
      have added := tables.addSig (.prevote, round, value) member
        (signed entry mem_cons_self) (nofun)
      exact { ih added restSigned with }

/-- The votes signed again at the start are votes the engine remembers. -/
theorem rebuildVotes_called {world : World} {actions : List Action}
    (called : Called setting world start session actions) :
    Called setting world start (session.rebuildVotesAfterRestart setting address) actions := by
  unfold rebuildVotesAfterRestart
  split
  case isTrue => exact called
  case isFalse voting =>
  obtain ⟨sigs, signed, same, kept, spoke⟩ := foldl_signVote_eq setting address
    session.engine.saved.sent session
  have notGivenUp : start.gaveUp = none := by
    rw [← called.place.gaveUp]
    exact not_isSome_iff_eq_none.mp voting
  have again : ∀ sigs, Called setting world start { session with sigs, signed } actions := by
    intro sigs
    refine { called with place := { called.place with }, kept := ?kept, spoke := ?spoke }
    case kept => exact fun message mem => kept message (called.kept message mem)
    case spoke =>
      intro message mem
      rcases spoke message mem with old | ⟨kind, round, value, inSaved, rfl⟩
      · exact called.spoke message old
      · have voted : session.engine.memory.voted kind round value := by
          rw [← saved_memory]
          exact inSaved
        exact Or.inr (Or.inr ⟨notGivenUp, kind, round, value, _, voted, tables.spells value, by
          rw [← called.place.attempt]⟩)
  rw [same]
  dsimp only
  split
  case h_1 => exact again sigs
  case h_2 => exact again _

theorem Tables.rebuildVotes
    (seated : ∀ {seat}, session.me = some seat → session.members.idxOf? address = some seat)
    (own : ∀ said ∈ (session.rebuildVotesAfterRestart setting address).signed, made ⟨address, said⟩) :
    (session.rebuildVotesAfterRestart setting address).Tables setting made := by
  revert own
  unfold rebuildVotesAfterRestart
  split
  case isTrue => exact fun _ => tables
  case isFalse =>
  dsimp only
  split
  case h_1 => exact tables.foldl_signVote seated
  case h_2 lock kept =>
  intro own
  have signedAgain := tables.foldl_signVote seated own
  have pol : ∀ entry ∈ lock.pol, made entry.2 := fun entry mem =>
    (signedAgain.lockPol kept).2 _ (mem_map_of_mem mem)
  exact { signedAgain.keepPol lock.round _ pol with }

omit tables

theorem mem_signed_begin (mem : said ∈ session.signed) :
    said ∈ (session.begin setting address order now).signed := by
  unfold begin
  dsimp only
  refine mem_signed_apply order now _ ?_
  unfold rebuildVotesAfterRestart
  split
  · exact mem
  obtain ⟨sigs, signed, same, kept, -⟩ := foldl_signVote_eq setting address
    (session.engine.start order now).1.saved.sent
    { session with engine := (session.engine.start order now).1 }
  dsimp only
  rw [same]
  split
  · exact kept said mem
  · exact kept said mem

theorem Ok.begin (ok : session.Ok setting made address) (order : IterOrder) (now : Nat)
    (own : ∀ said ∈ (session.begin setting address order now).signed, made ⟨address, said⟩) :
    (session.begin setting address order now).Ok setting made address := by
  have started : Called setting (session.world setting made) session
      { session with engine := (session.engine.start order now).1 }
      (session.engine.start order now).2 :=
    Called.engine (moves_start _ order now session.engine)
  have tables : Session.Tables setting made
      { session with engine := (session.engine.start order now).1 } :=
    { ok.tables with }
  exact ok.called order now (rebuildVotes_called tables started)
    (tables.rebuildVotes ok.engine.seated fun said mem => own said (mem_signed_apply order now _ mem))
    own

end Session

end EgoChain.Consensus
