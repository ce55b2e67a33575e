import EgoChain.Consensus.DriverStarts
import EgoChain.Consensus.Replacement

/-!
# The invariant of a whole height

Every event keeps every correct node in order, so that in every reachable state
there is a record for everything a correct node has signed.
-/

namespace EgoChain.Consensus

open EgoChain.Foundations List
open EgoChain.Foundations.LockVoting (Commit)

/-! ## Certificates the nodes assemble -/

variable {session : Session} {driver : Driver} {setting : HeightSetting} {made : Signature → Prop}
  {address : Address} {block : Block} {cert : TmCert}

/-- The precommits a driver keeps under one key are a quorum of signed votes. -/
theorem Session.Ok.commit_of_sigs (ok : session.Ok setting made address) {round : Nat} {value : ValueId}
    {kept : KeyedMap Nat Signature}
    (found : session.sigs.lookup (.precommit, round, value) = some kept)
    (enough : quorumOf session.members.length ≤ kept.entries.length)
    (counts : ¬ setting.Blank value) :
    Commit (seats session.members.length)
      (votesOf setting.Blank (setting.heardBy made session.attempt)) round value := by
  have keyOf : ∀ seat ∈ kept.keys, ∃ sig, kept.lookup seat = some sig := fun seat mem =>
    Option.isSome_iff_exists.mp (AList.lookup_isSome.mpr mem)
  refine ⟨kept.keys.toFinset, ?_, ?_, ?_⟩
  · intro seat mem
    obtain ⟨sig, there⟩ := keyOf seat (mem_toFinset.mp mem)
    obtain ⟨voter, text, place, -, -⟩ := ok.tables.precommits found there
    exact Finset.mem_range.mpr (List.idxOf?_eq_some_iff.mp place).1
  · rw [toFinset_card_of_nodup kept.keys_nodup]
    refine le_of_le_of_eq enough ?_
    exact (length_map _).symm
  · intro seat mem
    obtain ⟨sig, there⟩ := keyOf seat (mem_toFinset.mp mem)
    obtain ⟨voter, text, place, spelled, rfl⟩ := ok.tables.precommits found there
    refine Or.inr ⟨counts, ?_⟩
    rintro v same
    cases same
    exact ⟨session.members, voter, text, ok.seated, place, spelled, ok.tables.sigs found there⟩

/-- What `maybe_commit` needs to assemble a certificate. -/
theorem assemble_some (assembled : driver.assemble = some (block, cert)) :
    ∃ value kept, driver.decided = some (cert.round, value) ∧
      driver.payloads.lookup value = some block ∧
      driver.sigs.lookup (.precommit, cert.round, value) = some kept ∧
      quorumOf driver.members.length ≤ kept.entries.length ∧
      cert = if driver.attempt = 0 then
          { v := tmCertVersion, round := cert.round
            votes := (driver.listSigs kept).take (quorumOf driver.members.length) }
        else
          { v := tmCertV4, round := cert.round
            votes := (driver.listSigs kept).take (quorumOf driver.members.length)
            attempt := driver.attempt, skips := driver.skips } := by
  unfold Driver.assemble at assembled
  split at assembled
  case h_1 => cases assembled
  case h_2 round value decided =>
  split at assembled
  case h_2 => cases assembled
  case h_1 payload votes known kept =>
  dsimp only at assembled
  obtain ⟨enough, assembled⟩ := Option.ite_none_left_eq_some.mp assembled
  obtain ⟨rfl, certIs⟩ := Prod.mk.inj (Option.some.inj assembled)
  have roundIs : cert.round = round := by
    rw [← certIs]
    split <;> rfl
  rw [roundIs]
  exact ⟨value, votes, decided, known, kept, Nat.le_of_not_lt enough, certIs.symm⟩

theorem Session.Ok.assembled (ok : session.Ok setting made address)
    (assembled : session.assemble = some (block, cert)) :
    Committed setting made cert.attempt cert.round (setting.valueId block.hash) := by
  obtain ⟨value, kept, decided, known, found, enough, certIs⟩ := assemble_some assembled
  have attemptIs : cert.attempt = session.attempt := by
    rw [certIs]
    split
    case isTrue first => exact first.symm
    case isFalse => rfl
  rw [ok.tables.payloads known, attemptIs]
  exact ⟨ok.tables.decided decided, fun counts =>
    ⟨session.members, ok.seated, ok.commit_of_sigs found enough counts⟩⟩

/-! ## One node -/

structure Host.Ok (setting : HeightSetting) (made : Signature → Prop) (address : Address)
    (host : Host) : Prop where
  history : History setting made address host.wal host.signed host.decisions
  running : ∀ {driver}, host.driver = some driver → (host.session driver).Ok setting made address
  checked : ∀ check ∈ host.checks, setting.valueId check.block.hash = check.value
  assembled : ∀ entry ∈ host.assembled,
    Committed setting made entry.2.attempt entry.2.round (setting.valueId entry.1.hash)

namespace Host

variable {more : Signature → Prop} {host : Host} {event : DriverEvent}

theorem mem_signed_change {order : IterOrder} {now : Nat} {said : Message}
    (mem : said ∈ host.signed) : said ∈ (host.change setting address order now event).signed := by
  unfold Host.change
  repeat' split
  any_goals exact mem
  · exact Session.mem_signed_begin mem
  · exact Session.mem_signed_advance mem
  · exact Session.mem_signed_onProposal mem
  · refine Session.mem_signed_apply _ _ _ ?_
    exact mem
  · exact Session.mem_signed_onVote mem
  · rw [Host.keep, Session.onGiveUp_signed]
    exact mem
  · rw [Host.keep, Session.tick_fst]
    exact Session.mem_signed_maybeGiveUp (Session.mem_signed_apply _ _ _ mem)
  · exact Session.mem_signed_propose mem
  · unfold Host.commit
    split
    · exact mem
    · split
      · split <;> exact mem
      · exact mem

variable (ok : host.Ok setting made address)

include ok

theorem Ok.mono (grows : ∀ sig, made sig → more sig) : host.Ok setting more address where
  history := ok.history.mono grows
  running isDriver := (ok.running isDriver).mono grows
  checked := ok.checked
  assembled entry mem := (ok.assembled entry mem).mono grows

theorem Ok.keep (sessionOk : session.Ok setting made address) :
    (host.keep session).Ok setting made address where
  history := sessionOk.history
  running isDriver := by
    cases isDriver
    exact sessionOk
  checked := sessionOk.tables.checks
  assembled := ok.assembled

theorem Ok.commit (isDriver : host.driver = some driver) (stores : Bool) :
    (host.commit setting driver stores).Ok setting made address := by
  unfold Host.commit
  split
  case h_1 => exact ok
  case h_2 block cert assembled =>
  have kept : { host with assembled := host.assembled ++ [(block, cert)] }.Ok setting made
      address :=
    { ok with
      assembled := forall_mem_append.mpr ⟨ok.assembled,
        forall_mem_singleton.mpr ((ok.running isDriver).assembled assembled)⟩ }
  repeat' split
  any_goals exact kept
  exact {
    history := kept.history
    running := nofun
    checked := nofun
    assembled := kept.assembled }

theorem Ok.change (order : IterOrder) (now : Nat)
    (opens : ∀ {skips chain}, (∀ cert ∈ skips, ∀ sig ∈ cert.sigs, sig ∈ event.sigs) →
      (∀ cert ∈ skips, cert.attempt ≤ maxU32) → setting.skipChain skips = .ok chain →
      Opening setting made skips (attemptOf skips) chain.committee chain.miners chain.carried)
    (numbers : ∀ number ∈ event.numbers, number ≤ maxU32) (signed : ∀ sig ∈ event.sigs, made sig)
    (own : ∀ said ∈ (host.change setting address order now event).signed, made ⟨address, said⟩) :
    (host.change setting address order now event).Ok setting made address := by
  have validated : ∀ {timely : Bool} {block : Block} {miners : List Address},
      (timely && setting.validate block miners) = true →
        setting.Accepts (setting.valueId block.hash) := by
    intro timely block miners passed _
    exact setting.hashed block miners (Bool.and_eq_true_iff.mp passed).2
  revert own
  unfold Host.change
  split
  case h_1 able isDriver =>
    split
    case isTrue => exact fun _ => ok
    case isFalse =>
    split
    case h_1 => exact fun _ => ok
    case h_2 driver built =>
      intro own
      have started := build_ok ok.checked ok.history built
      exact ok.keep (Session.Ok.begin started order now own)
  case h_2 =>
    exact fun _ => { ok with
      running := nofun
      checked := nofun }
  case h_3 => exact fun _ => ok
  case h_4 => exact fun _ => ok
  case h_5 able skips driver isDriver =>
    intro own
    exact ok.keep ((ok.running isDriver).advance order now able
      (opens (fun cert mem sig inside => mem_flatMap.mpr ⟨cert, mem, inside⟩)
        fun cert mem => numbers _ (mem_map_of_mem mem)) own)
  case h_6 able message driver isDriver =>
    intro own
    have chained : ∀ cert ∈ message.skips, ∀ sig ∈ cert.sigs,
        sig ∈ (DriverEvent.proposal able message).sigs := fun cert mem sig inside =>
      mem_append_right _ (mem_flatMap.mpr ⟨cert, mem, inside⟩)
    have certNumbers : ∀ cert ∈ message.skips, cert.attempt ≤ maxU32 := fun cert mem =>
      numbers _ (mem_cons_of_mem _ (mem_map_of_mem mem))
    have votesSigned : ∀ entry ∈ message.polVotes, made entry.2 := fun entry mem =>
      signed _ (mem_append_left _ (mem_cons_of_mem _ (mem_map_of_mem mem)))
    exact ok.keep ((ok.running isDriver).onProposal order now able
      (numbers _ mem_cons_self) votesSigned (opens chained certNumbers) own)
  case h_7 index timely driver isDriver =>
    split
    case h_1 => exact fun _ => ok
    case h_2 check there =>
    intro own
    have running := ok.running isDriver
    have erased : ∀ other ∈ host.checks.eraseIdx index,
        setting.valueId other.block.hash = other.value := fun other mem =>
      ok.checked other (mem_of_mem_eraseIdx mem)
    have still : ({ host with checks := host.checks.eraseIdx index }.session driver).Ok setting
        made address :=
      { running with
        engine := { running.engine with }
        tables := { running.tables with checks := erased } }
    have hostOk : { host with checks := host.checks.eraseIdx index }.Ok setting made address :=
      { ok with
        running := fun same => by
          cases isDriver.symm.trans same
          exact still
        checked := erased }
    have valueIs := ok.checked check (mem_of_getElem? there)
    exact hostOk.keep (still.settle order now (valueIs ▸ validated) own)
  case h_8 message driver isDriver =>
    intro own
    exact ok.keep ((ok.running isDriver).onVote order now
      (numbers _ mem_cons_self) (signed _ mem_cons_self) own)
  case h_9 message driver isDriver =>
    intro own
    have noted := (ok.running isDriver).onGiveUp (numbers _ mem_cons_self) signed
    exact ok.keep noted
  case h_10 waited reachable driver isDriver =>
    intro own
    exact ok.keep ((ok.running isDriver).tick order now waited reachable own)
  case h_11 block timely driver isDriver =>
    intro own
    exact ok.keep ((ok.running isDriver).propose order now validated own)
  case h_12 stores driver isDriver =>
    exact fun _ => ok.commit isDriver stores

end Host

/-! ## All nodes -/

namespace Network

variable {network after : Network}

/-- Every correct node is in order. -/
def Ok (setting : HeightSetting) (network : Network) : Prop :=
  ∀ address, address ∉ setting.faulty → (network address).Ok setting (network.Made setting) address

theorem initial_ok (setting : HeightSetting) : Network.initial.Ok setting := by
  intro address _
  exact {
    history := {
      own := nofun
      records := nofun
      committed := nofun
      walOk := nofun
      noWal := nofun }
    running := nofun
    checked := nofun
    assembled := nofun }

/-- In a state that is in order there is a record for everything a correct node signed. -/
theorem Ok.recorded (ok : network.Ok setting) : Recorded setting (network.Made setting) := by
  intro signer correct
  refine ⟨(network signer).signed, fun message => ?_, (ok signer correct).history.records⟩
  exact or_iff_right correct

theorem made_step (at' : NetworkEvent) (sig : Signature) (made : network.Made setting sig) :
    (network.step setting at').Made setting sig := by
  refine made.imp_right fun mem => ?_
  unfold Network.step
  rw [Function.update_apply]
  split
  case isFalse => exact mem
  case isTrue same =>
    rw [same] at mem
    exact Host.mem_signed_change mem

theorem Ok.step (ok : network.Ok setting) {at' : NetworkEvent}
    (allowed : at'.Allowed setting network) : (network.step setting at').Ok setting := by
  obtain ⟨-, numbers, signed⟩ := allowed
  have recorded := ok.recorded
  intro address correct
  by_cases here : address = at'.address
  · have changed : network.step setting at' address =
        (network at'.address).change setting at'.address at'.order at'.now at'.event := by
      rw [here, Network.step, Function.update_self]
    have own : ∀ said ∈ ((network at'.address).change setting at'.address at'.order at'.now
        at'.event).signed, (network.step setting at').Made setting ⟨at'.address, said⟩ := by
      intro said mem
      refine Or.inr ?_
      rw [← here, changed]
      exact mem
    rw [changed, here]
    refine ((ok at'.address (here ▸ correct)).mono (made_step at')).change at'.order at'.now ?_
      numbers (fun sig mem => made_step at' sig (signed sig mem)) own
    intro skips chain inEvent certNumbers verified
    have certSigned := fun cert mem sig inside => signed sig (inEvent cert mem sig inside)
    exact (recorded.opening ⟨rfl, verified, certSigned, certNumbers⟩).mono (made_step at')
  · have same : network.step setting at' address = network address := by
      rw [Network.step, Function.update_of_ne here]
    rw [same]
    exact (ok address correct).mono (made_step at')

/-- Every reachable state is in order. -/
theorem Ok.run {events : List NetworkEvent} (ok : network.Ok setting)
    (ran : network.run setting events = some after) : after.Ok setting := by
  induction events generalizing network with
  | nil =>
    cases ran
    exact ok
  | cons at' rest ih =>
    unfold Network.run at ran
    split at ran
    case isFalse => cases ran
    case isTrue allowed => exact ih (ok.step allowed) ran

end Network

end EgoChain.Consensus
