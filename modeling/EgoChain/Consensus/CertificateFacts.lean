import EgoChain.Consensus.Certificates
import EgoChain.Foundations.Checks
import Mathlib.Data.List.ReduceOption
import Mathlib.Data.Prod.Lex

/-!
# What an accepted certificate says

One lemma for each verification function: what its acceptance means, without the
loops and accumulators that compute it.
-/

namespace EgoChain.Consensus

open EgoChain.Foundations List TmSkipVote

/-! ## Give-ups -/

variable {vote : TmSkipVote} {attempt first lockAttempt height : Nat} {lock : TmLock}
  {committee : List Address} {earlier : Nat → Option (List Address)} {cert : TmSkipCert}
  {skips : List TmSkipCert} {locks : List (Option TmLock)} {chain : SkipChain} {block : Block}

namespace TmSkipVote

/-- The give-up reports this lock, held by its voter at this attempt. -/
def Reports (vote : TmSkipVote) (attempt lockAttempt : Nat) (lock : TmLock) : Prop :=
  vote.locked = some lock ∧ vote.lockAttempt attempt = some lockAttempt

theorem Reports.unique {second : Nat} {other : TmLock} (reports : vote.Reports attempt first lock)
    (again : vote.Reports attempt second other) : first = second ∧ lock = other :=
  ⟨Option.some.inj (reports.2.symm.trans again.2), Option.some.inj (reports.1.symm.trans again.1)⟩

theorem not_reports (silent : vote.locked = none) : ¬ vote.Reports attempt lockAttempt lock := by
  intro reports
  cases silent.symm.trans reports.1

/-- Every lock in a give-up is reported at some attempt. -/
theorem reports_of_locked (locked : vote.locked = some lock) (attempt : Nat) :
    vote.Reports attempt (if compactSkip attempt then lock.attempt.getD attempt else attempt)
      lock := by
  refine ⟨locked, ?_⟩
  rw [lockAttempt, locked]
  rfl

theorem Reports.plain
    (reports : vote.Reports attempt lockAttempt lock) (plain : compactSkip attempt = false) :
    lockAttempt = attempt := by
  have here := reports_of_locked reports.1 attempt
  rw [plain] at here
  exact (reports.unique here).1

/-- The prevotes behind a lock reach the quorum of the committee it comes from. -/
def Backed (height lockAttempt : Nat) (backing : List Address) (lock : TmLock) : Prop :=
  quorumOf backing.length ≤ (lock.backers height lockAttempt backing).length

/-- What an accepted give-up says. -/
structure Accepted (vote : TmSkipVote) (height attempt : Nat) (committee : List Address)
    (earlier : Nat → Option (List Address)) : Prop where
  seated : vote.voter ∈ committee
  signed : vote.sig = ⟨vote.voter, vote.message height attempt⟩
  backed : ∀ {lockAttempt lock}, vote.Reports attempt lockAttempt lock →
    lockAttempt ≤ attempt ∧ ∃ backing, Backed height lockAttempt backing lock ∧
      (lockAttempt = attempt ∧ backing = committee ∨
        lockAttempt ≠ attempt ∧ earlier lockAttempt = some backing)

theorem verifyLock_ok
    (verified : vote.verifyLock height attempt committee earlier lock lockAttempt = .ok ()) :
    lockAttempt ≤ attempt ∧ ∃ backing, Backed height lockAttempt backing lock ∧
      (lockAttempt = attempt ∧ backing = committee ∨
        lockAttempt ≠ attempt ∧ earlier lockAttempt = some backing) := by
  obtain ⟨notLater, verified⟩ := refuse_eq_ok_iff.mp verified
  refine ⟨not_lt.mp notLater, ?_⟩
  split at verified
  case h_1 => cases verified
  case h_2 backing found =>
  obtain ⟨enough, verified⟩ := refuse_eq_ok_iff.mp verified
  refine ⟨backing, not_lt.mp enough, ?_⟩
  by_cases same : lockAttempt = attempt
  · rw [if_pos same] at found
    exact Or.inl ⟨same, (Option.some.inj found).symm⟩
  · rw [if_neg same] at found
    exact Or.inr ⟨same, found⟩

theorem accepted_of_verifyWith (verified : vote.verifyWith height attempt committee earlier = .ok ()) :
    vote.Accepted height attempt committee earlier := by
  obtain ⟨seated, verified⟩ := refuse_eq_ok_iff.mp verified
  obtain ⟨signed, verified⟩ := refuse_eq_ok_iff.mp verified
  refine ⟨not_not.mp seated, tmSignatureOk_iff.mp (by simpa using signed), ?_⟩
  intro lockAttempt lock reports
  rw [reports.1, reports.2] at verified
  exact verifyLock_ok verified

end TmSkipVote

/-! ## Give-up certificates -/

variable {seen all : List Address}

namespace TmSkipCert

/-- The lock a certificate hands on when a give-up's report is the best one. -/
def handedOn (attempt lockAttempt : Nat) (lock : TmLock) : TmLock :=
  if compactSkip attempt then { lock with attempt := some lockAttempt } else lock

@[simp]
theorem handedOn_round (attempt lockAttempt : Nat) (lock : TmLock) :
    (handedOn attempt lockAttempt lock).round = lock.round := by
  unfold handedOn
  split <;> rfl

/-- A give-up whose report no other give-up of the list outranks. -/
def Foremost (attempt : Nat) (votes : List TmSkipVote) (vote : TmSkipVote)
    (lockAttempt : Nat) (lock : TmLock) : Prop :=
  vote ∈ votes ∧ vote.Reports attempt lockAttempt lock ∧
    ∀ other ∈ votes, ∀ otherAttempt otherLock, other.Reports attempt otherAttempt otherLock →
      toLex (otherAttempt, otherLock.round) ≤ toLex (lockAttempt, lock.round)

/-- The first key by which reports are compared. -/
def rankOf (attempt lockAttempt : Nat) : Nat := if compactSkip attempt then lockAttempt else 0

/-- The best report of the give-ups seen so far. -/
def Leads (attempt : Nat) (votes : List TmSkipVote) : Option (Nat × TmLock) → Prop
  | none => ∀ vote ∈ votes, vote.locked = none
  | some (rank, chosen) => ∃ vote lockAttempt lock, Foremost attempt votes vote lockAttempt lock ∧
      rank = rankOf attempt lockAttempt ∧ chosen = handedOn attempt lockAttempt lock

variable {votes : List TmSkipVote} {next : TmSkipVote} {best : Option (Nat × TmLock)}

theorem Foremost.snoc (foremost : Foremost attempt votes vote lockAttempt lock)
    (notAhead : ∀ otherAttempt otherLock, next.Reports attempt otherAttempt otherLock →
      toLex (otherAttempt, otherLock.round) ≤ toLex (lockAttempt, lock.round)) :
    Foremost attempt (votes ++ [next]) vote lockAttempt lock := by
  obtain ⟨mem, reports, ahead⟩ := foremost
  exact ⟨mem_append_left _ mem, reports,
    forall_mem_append.mpr ⟨ahead, forall_mem_singleton.mpr notAhead⟩⟩

/-- The order in which reports are compared is the order of attempt, then round: below
the compact threshold every report is of the same attempt. -/
theorem outranks_iff {oldAttempt newAttempt : Nat} (oldRound newRound : Nat)
    (plainOld : compactSkip attempt = false → oldAttempt = attempt)
    (plainNew : compactSkip attempt = false → newAttempt = attempt) :
    (rankOf attempt oldAttempt < rankOf attempt newAttempt ∨
      rankOf attempt oldAttempt = rankOf attempt newAttempt ∧ oldRound < newRound) ↔
      toLex (oldAttempt, oldRound) < toLex (newAttempt, newRound) := by
  rw [Prod.Lex.toLex_lt_toLex]
  unfold rankOf
  cases compact : compactSkip attempt with
  | true => simp
  | false => simp [plainOld compact, plainNew compact]

theorem better_of_reports (reports : vote.Reports attempt lockAttempt lock)
    (best : Option (Nat × TmLock)) :
    better attempt best vote = if best.all fun old => old.1 < rankOf attempt lockAttempt ∨
          old.1 = rankOf attempt lockAttempt ∧ old.2.round < lock.round then
        some (rankOf attempt lockAttempt, handedOn attempt lockAttempt lock)
      else best := by
  unfold better
  rw [reports.1, reports.2]
  rfl

theorem Leads.better_silent (leads : Leads attempt votes best) (silent : next.locked = none) :
    Leads attempt (votes ++ [next]) (better attempt best next) := by
  have unchanged : TmSkipCert.better attempt best next = best := by
    unfold TmSkipCert.better
    rw [silent]
  rw [unchanged]
  match best, leads with
  | none, leads => exact forall_mem_append.mpr ⟨leads, forall_mem_singleton.mpr silent⟩
  | some _, ⟨vote, lockAttempt, lock, foremost, rankIs, chosenIs⟩ =>
    exact ⟨vote, lockAttempt, lock,
      foremost.snoc (fun _ _ reports => absurd reports (not_reports silent)),
      rankIs, chosenIs⟩

theorem Leads.better_reports (leads : Leads attempt votes best)
    (reports : next.Reports attempt lockAttempt lock) :
    Leads attempt (votes ++ [next]) (better attempt best next) := by
  have own : ∀ otherAttempt otherLock, next.Reports attempt otherAttempt otherLock →
      toLex (otherAttempt, otherLock.round) ≤ toLex (lockAttempt, lock.round) := by
    intro otherAttempt otherLock again
    obtain ⟨rfl, rfl⟩ := reports.unique again
    exact le_refl _
  -- The new report leads when it outranks every report before it.
  have ahead : (∀ other ∈ votes, ∀ otherAttempt otherLock,
        other.Reports attempt otherAttempt otherLock →
          toLex (otherAttempt, otherLock.round) ≤ toLex (lockAttempt, lock.round)) →
      Leads attempt (votes ++ [next])
        (some (rankOf attempt lockAttempt, handedOn attempt lockAttempt lock)) := by
    intro overOld
    exact ⟨next, lockAttempt, lock, ⟨by simp, reports,
      forall_mem_append.mpr ⟨overOld, forall_mem_singleton.mpr own⟩⟩, rfl, rfl⟩
  rw [better_of_reports reports]
  match best, leads with
  | none, leads =>
    exact ahead fun other old _ _ otherReports =>
      absurd otherReports (not_reports (leads other old))
  | some (rank, chosen), ⟨vote, oldAttempt, oldLock, foremost, rankIs, chosenIs⟩ =>
    have order := outranks_iff oldLock.round lock.round foremost.2.1.plain reports.plain
    simp only [Option.all_some, chosenIs, rankIs, handedOn_round, decide_eq_true_eq, order]
    split
    case isTrue outranked =>
      exact ahead fun other old _ _ otherReports =>
        (foremost.2.2 other old _ _ otherReports).trans outranked.le
    case isFalse notOutranked =>
      exact ⟨vote, oldAttempt, oldLock,
        foremost.snoc (fun _ _ again => (own _ _ again).trans (not_lt.mp notOutranked)),
        rfl, rfl⟩

theorem Leads.better (leads : Leads attempt votes best) (next : TmSkipVote) :
    Leads attempt (votes ++ [next]) (better attempt best next) := by
  cases locked : next.locked with
  | none => exact leads.better_silent locked
  | some lock => exact leads.better_reports (reports_of_locked locked attempt)

/-- What an accepted certificate says. -/
structure Accepted (cert : TmSkipCert) (height : Nat) (committee : List Address)
    (earlier : Nat → Option (List Address)) (best : Option TmLock) : Prop where
  enough : skipThresholdOf committee.length ≤ cert.votes.length
  distinct : (cert.votes.map TmSkipVote.voter).Nodup
  each : ∀ vote ∈ cert.votes, vote.Accepted height cert.attempt committee earlier
  silent : best = none → ∀ vote ∈ cert.votes, vote.locked = none
  chosen : ∀ {lock}, best = some lock → ∃ vote lockAttempt reported,
    Foremost cert.attempt cert.votes vote lockAttempt reported ∧
      lock = handedOn cert.attempt lockAttempt reported

/-- The lock an accepted certificate hands on is at least as good as any it was shown. -/
theorem Accepted.outranks {best : Option TmLock}
    (accepted : cert.Accepted height committee earlier best) (mem : vote ∈ cert.votes)
    (reports : vote.Reports cert.attempt lockAttempt lock) :
    ∃ source reported, best = some (handedOn cert.attempt source reported) ∧
      (compactSkip cert.attempt = false → source = cert.attempt) ∧
      toLex (lockAttempt, lock.round) ≤ toLex (source, reported.round) := by
  cases found : best with
  | none => exact absurd reports (not_reports (accepted.silent found vote mem))
  | some chosen =>
    obtain ⟨other, source, reported, foremost, rfl⟩ := accepted.chosen found
    exact ⟨source, reported, rfl, foremost.2.1.plain, foremost.2.2 vote mem lockAttempt lock reports⟩

theorem verifyVotes_ok {done : List TmSkipVote} {last : Option (Nat × TmLock)}
    (seenIs : seen.Perm (done.map TmSkipVote.voter)) (distinct : seen.Nodup)
    (leads : Leads attempt done best)
    (verified : verifyVotes height attempt committee earlier votes seen best = .ok (all, last)) :
    all.Perm ((done ++ votes).map TmSkipVote.voter) ∧ all.Nodup ∧
      (∀ vote ∈ votes, vote.Accepted height attempt committee earlier) ∧
      Leads attempt (done ++ votes) last := by
  induction votes generalizing done seen best with
  | nil =>
    cases verified
    rw [append_nil]
    exact ⟨seenIs, distinct, by simp, leads⟩
  | cons vote rest ih =>
    unfold verifyVotes at verified
    split at verified
    case h_1 => cases verified
    case h_2 accepted =>
    obtain ⟨fresh, verified⟩ := refuse_eq_ok_iff.mp verified
    have nextSeen : (vote.voter :: seen).Perm ((done ++ [vote]).map TmSkipVote.voter) := by
      rw [map_append]
      exact (seenIs.cons vote.voter).trans (perm_append_singleton _ _).symm
    obtain ⟨allIs, allDistinct, each, lastLeads⟩ :=
      ih nextSeen (nodup_cons.mpr ⟨fresh, distinct⟩) (leads.better vote) verified
    rw [append_assoc] at allIs lastLeads
    exact ⟨allIs, allDistinct, forall_mem_cons.mpr ⟨accepted_of_verifyWith accepted, each⟩, lastLeads⟩

theorem accepted_of_verifyWith {best : Option TmLock}
    (verified : cert.verifyWith height committee earlier = .ok best) :
    cert.Accepted height committee earlier best := by
  unfold verifyWith at verified
  split at verified
  case h_1 => cases verified
  case h_2 seen last tallied =>
  obtain ⟨enough, verified⟩ := refuse_eq_ok_iff.mp verified
  have nothingYet : Leads cert.attempt [] none := nofun
  have nobodyYet : ([] : List Address).Perm (([] : List TmSkipVote).map TmSkipVote.voter) :=
    List.Perm.refl _
  obtain ⟨seenIs, distinct, each, leads⟩ := verifyVotes_ok nobodyYet nodup_nil nothingYet tallied
  rw [nil_append] at seenIs leads
  cases verified
  refine ⟨?_, seenIs.nodup_iff.mp distinct, each, ?_, ?_⟩
  · have size := seenIs.length_eq
    rw [length_map] at size
    omega
  · intro none
    rw [Option.map_eq_none_iff] at none
    rw [none] at leads
    exact leads
  · intro lock found
    obtain ⟨⟨rank, chosen⟩, lastIs, rfl⟩ := Option.map_eq_some_iff.mp found
    rw [lastIs] at leads
    obtain ⟨vote, lockAttempt, reported, foremost, -, chosenIs⟩ := leads
    exact ⟨vote, lockAttempt, reported, foremost, chosenIs⟩

end TmSkipCert

/-! ## Chains of replacements -/

theorem attemptOf_append (skips : List TmSkipCert) (last : TmSkipCert) :
    attemptOf (skips ++ [last]) = satAdd32 last.attempt 1 := by
  simp [attemptOf]

namespace HeightView

variable {view : HeightView} {miners : List Address}

/-- The certificate at each place of an accepted list, with the lock it hands on. -/
theorem verifySkips_ok (verified : view.verifySkips first skips = .ok (miners, locks)) :
    locks.length = skips.length ∧ ∀ index cert, skips[index]? = some cert →
      cert.attempt = first + index ∧ ∃ committee best,
        view.committeeForAttempt (first + index) = some committee ∧
        cert.Accepted view.height committee (fun _ => none) best ∧
        locks[index]? = some (best.map fun lock => { lock with attempt := some cert.attempt }) := by
  induction skips generalizing first miners locks with
  | nil =>
    cases verified
    exact ⟨rfl, fun index cert found => by simp at found⟩
  | cons skip rest ih =>
    obtain ⟨inOrder, verified⟩ := refuse_eq_ok_iff.mp verified
    split at verified
    case h_1 => cases verified
    case h_2 committee seated =>
    split at verified
    case h_1 => cases verified
    case h_2 best accepted =>
    split at verified
    case h_1 => cases verified
    case h_2 restMiners restLocks restOk =>
    cases verified
    obtain ⟨size, each⟩ := ih restOk
    refine ⟨by simp [size], ?_⟩
    intro index cert found
    cases index with
    | zero =>
      cases found
      exact ⟨not_not.mp inOrder, committee, best, seated,
        TmSkipCert.accepted_of_verifyWith accepted, rfl⟩
    | succ index =>
      have there := each index cert found
      rw [show first + 1 + index = first + (index + 1) by omega] at there
      exact there

/-- An accepted list of certificates starts at attempt 0 and ends at the one before. -/
theorem attemptOf_of_verifySkips (verified : view.verifySkips 0 skips = .ok (miners, locks))
    (plain : attemptOf skips ≤ tmMaxAttempt) : attemptOf skips = skips.length := by
  rcases eq_nil_or_concat skips with rfl | ⟨front, last, rfl⟩
  · rfl
  rw [concat_eq_append] at *
  obtain ⟨-, each⟩ := verifySkips_ok verified
  obtain ⟨place, -⟩ := each front.length last (by simp)
  rw [attemptOf_append] at plain ⊢
  simp only [length_append, length_singleton]
  unfold satAdd32 maxU32 tmMaxAttempt at *
  omega

/-- What an accepted chain rests on. -/
theorem skipChain_ok (verified : view.skipChain skips = .ok chain) :
    view.committeeForAttempt (attemptOf skips) = some chain.committee ∧
      ((attemptOf skips ≤ tmMaxAttempt ∧ ∃ miners locks,
          view.verifySkips 0 skips = .ok (miners, locks) ∧ chain.carried = carriedLock locks ∧
          chain.miners = miners ++ chain.committee) ∨
        (tmMaxAttempt < attemptOf skips ∧ ∃ last previous, skips = [last] ∧
          view.committeeForAttempt last.attempt = some previous ∧
          last.Accepted view.height previous view.committeeForAttempt chain.carried)) := by
  unfold skipChain at verified
  dsimp only at verified
  split at verified
  case isTrue compact =>
    unfold compactSkipChain at verified
    rw [refuse_eq_ok_iff] at verified
    obtain ⟨-, verified⟩ := verified
    split at verified
    case h_2 => cases verified
    case h_1 last =>
    split at verified
    case h_1 => cases verified
    case h_2 previous seated =>
    split at verified
    case h_1 => cases verified
    case h_2 carried accepted =>
    split at verified
    case h_1 => cases verified
    case h_2 committee found =>
      cases verified
      exact ⟨found, Or.inr ⟨compact, last, previous, rfl, seated,
        TmSkipCert.accepted_of_verifyWith accepted⟩⟩
  case isFalse plain =>
    obtain ⟨-, verified⟩ := refuse_eq_ok_iff.mp verified
    split at verified
    case h_1 => cases verified
    case h_2 miners locks accepted =>
    split at verified
    case h_1 => cases verified
    case h_2 committee found =>
      cases verified
      exact ⟨found, Or.inl ⟨not_lt.mp plain, miners, locks, accepted, rfl, rfl⟩⟩

/-- Below the largest attempt, a chain rests on attempts before the one it opens. -/
theorem attempt_lt_of_mem (verified : view.skipChain skips = .ok chain) (mem : cert ∈ skips)
    (below : attemptOf skips < maxU32 ∨ cert.attempt < maxU32) :
    cert.attempt < attemptOf skips := by
  rcases (skipChain_ok verified).2 with ⟨plain, miners, locks, accepted, -⟩ | ⟨-, last, -, rfl, -⟩
  · rw [attemptOf_of_verifySkips accepted plain]
    obtain ⟨index, inside, rfl⟩ := getElem_of_mem mem
    obtain ⟨place, -⟩ := (verifySkips_ok accepted).2 index _ (List.getElem?_eq_getElem inside)
    omega
  · obtain rfl := mem_singleton.mp mem
    simp only [attemptOf, List.getLast?_singleton, satAdd32] at below ⊢
    omega

end HeightView

/-! ## The lock a chain carries -/

theorem carriedLock_mem (carried : carriedLock locks = some lock) :
    ∃ index : Nat, locks[index]? = some (some lock) := by
  have mem : some lock ∈ locks := reduceOption_mem_iff.1 (mem_of_getLast? carried)
  exact mem_iff_getElem?.mp mem

/-- A chain with a lock at some place carries one from there or later. -/
theorem carriedLock_from (there : locks[first]? = some (some lock)) :
    ∃ index last, first ≤ index ∧ carriedLock locks = some last ∧ locks[index]? = some (some last) := by
  have split : locks = locks.take first ++ locks.drop first := (take_append_drop _ _).symm
  have front : (locks.drop first)[0]? = some (some lock) := by simpa using there
  have mem := reduceOption_mem_iff.2 (mem_of_getElem? front)
  have notEmpty := ne_nil_of_mem mem
  obtain ⟨last, isLast⟩ : ∃ last, (locks.drop first).reduceOption.getLast? = some last :=
    ⟨_, List.getLast?_eq_some_getLast notEmpty⟩
  have inRest := isLast
  obtain ⟨offset, found⟩ := carriedLock_mem inRest
  refine ⟨first + offset, last, Nat.le_add_right _ _, ?_, ?_⟩
  · rw [split, carriedLock, reduceOption_append, List.getLast?_append, isLast]
    rfl
  · rw [List.getElem?_drop] at found
    exact found

/-- A lock that a certificate hands on, with the give-up it comes from. -/
structure CarriedFrom (view : HeightView) (cert : TmSkipCert) (lock : TmLock) (vote : TmSkipVote)
    (source : Nat) (reported : TmLock) : Prop where
  foremost : TmSkipCert.Foremost cert.attempt cert.votes vote source reported
  signed : vote.sig = ⟨vote.voter, vote.message view.height cert.attempt⟩
  round : lock.round = reported.round
  value : lock.value = reported.value
  pol : lock.pol = reported.pol
  attempt : lock.attempt = some source
  earlier : source ≤ cert.attempt
  backed : ∃ backing, view.committeeForAttempt source = some backing ∧
    TmSkipVote.Backed view.height source backing reported

namespace HeightView

variable {view : HeightView}

theorem carriedFrom_plain {best : TmLock}
    (seated : view.committeeForAttempt cert.attempt = some committee)
    (plain : compactSkip cert.attempt = false)
    (accepted : cert.Accepted view.height committee (fun _ => none) (some best)) :
    ∃ vote reported, CarriedFrom view cert { best with attempt := some cert.attempt } vote
      cert.attempt reported := by
  obtain ⟨vote, source, reported, foremost, bestIs⟩ := accepted.chosen rfl
  obtain rfl := foremost.2.1.plain plain
  obtain ⟨-, backing, backed, place⟩ := (accepted.each vote foremost.1).backed foremost.2.1
  rw [TmSkipCert.handedOn, plain] at bestIs
  subst bestIs
  refine ⟨vote, best, foremost, (accepted.each vote foremost.1).signed, rfl, rfl, rfl, rfl,
    Nat.le_refl _, backing, ?_, backed⟩
  rcases place with ⟨-, rfl⟩ | ⟨differs, -⟩
  · exact seated
  · exact absurd rfl differs

theorem carriedFrom_compact (seated : view.committeeForAttempt cert.attempt = some committee)
    (compact : compactSkip cert.attempt = true)
    (accepted : cert.Accepted view.height committee view.committeeForAttempt (some lock)) :
    ∃ vote source reported, CarriedFrom view cert lock vote source reported := by
  obtain ⟨vote, source, reported, foremost, lockIs⟩ := accepted.chosen rfl
  obtain ⟨notLater, backing, backed, place⟩ := (accepted.each vote foremost.1).backed foremost.2.1
  rw [TmSkipCert.handedOn, compact] at lockIs
  subst lockIs
  refine ⟨vote, source, reported, foremost, (accepted.each vote foremost.1).signed, rfl, rfl, rfl,
    rfl, notLater, backing, ?_, backed⟩
  rcases place with ⟨rfl, rfl⟩ | ⟨-, found⟩
  · exact seated
  · exact found

/-- The certificate that the carried lock of an accepted chain comes from. -/
theorem carried_origin (verified : view.skipChain skips = .ok chain)
    (carried : chain.carried = some lock) :
    ∃ cert ∈ skips, ∃ vote source reported, CarriedFrom view cert lock vote source reported := by
  rcases (skipChain_ok verified).2 with ⟨plain, miners, locks, accepted, carriedIs, -⟩ |
    ⟨compact, last, previous, rfl, seated, accepted⟩
  · rw [carriedIs] at carried
    obtain ⟨index, there⟩ := carriedLock_mem carried
    obtain ⟨size, each⟩ := verifySkips_ok accepted
    have inside : index < skips.length := by
      rw [← size]
      exact (List.getElem?_eq_some_iff.mp there).1
    obtain ⟨place, committee, best, seated, certOk, lockIs⟩ :=
      each index skips[index] (List.getElem?_eq_getElem inside)
    rw [there] at lockIs
    obtain ⟨chosen, rfl, rfl⟩ := Option.map_eq_some_iff.mp (Option.some.inj lockIs).symm
    have length := attemptOf_of_verifySkips accepted plain
    have below : compactSkip skips[index].attempt = false := by
      refine decide_eq_false ?_
      omega
    rw [← place] at seated
    obtain ⟨vote, reported, origin⟩ := carriedFrom_plain seated below certOk
    exact ⟨skips[index], getElem_mem inside, vote, _, reported, origin⟩
  · have above : compactSkip last.attempt = true := by
      simp only [attemptOf, List.getLast?_singleton, satAdd32, tmMaxAttempt] at compact
      exact decide_eq_true (show tmMaxAttempt ≤ last.attempt by unfold tmMaxAttempt; omega)
    rw [carried] at accepted
    obtain ⟨vote, source, reported, origin⟩ := carriedFrom_compact seated above accepted
    exact ⟨last, mem_singleton_self last, vote, source, reported, origin⟩

end HeightView

/-! ## Commit certificates -/

namespace TmCert

variable {message : Message}

theorem countVotes_ok_iff {votes : List (Address × Signature)} (distinct : seen.Nodup) :
    countVotes committee message votes seen = .ok all ↔
      all = (votes.map Prod.fst).reverse ++ seen ∧ all.Nodup ∧
        ∀ entry ∈ votes, entry.1 ∈ committee ∧ entry.2 = ⟨entry.1, message⟩ := by
  induction votes generalizing seen with
  | nil =>
    constructor
    · intro same
      cases same
      exact ⟨rfl, distinct, by simp⟩
    · rintro ⟨rfl, -, -⟩
      rfl
  | cons entry rest ih =>
    obtain ⟨voter, sig⟩ := entry
    unfold countVotes
    by_cases seated : voter ∈ committee
    · by_cases again : voter ∈ seen
      · rw [if_neg (not_not.mpr seated), if_pos again]
        constructor
        · intro impossible
          cases impossible
        · rintro ⟨rfl, allDistinct, -⟩
          have twice := nodup_append.mp allDistinct
          exact absurd rfl (twice.2.2 voter (by simp) voter again)
      · by_cases signed : tmSignatureOk voter message sig = true
        · rw [if_neg (not_not.mpr seated), if_neg again, if_neg (by simp [signed]),
            ih (nodup_cons.mpr ⟨again, distinct⟩)]
          simp [seated, tmSignatureOk_iff.mp signed]
        · rw [if_neg (not_not.mpr seated), if_neg again, if_pos (by simpa using signed)]
          constructor
          · intro impossible
            cases impossible
          · rintro ⟨-, -, each⟩
            exact absurd (tmSignatureOk_iff.mpr (each (voter, sig) (by simp)).2) signed
    · rw [if_pos seated]
      constructor
      · intro impossible
        cases impossible
      · rintro ⟨-, -, each⟩
        exact absurd (each (voter, sig) (by simp)).1 seated

/-- Exactly when the votes of a commit certificate are accepted. -/
theorem verifyVotes_ok_iff {cert : TmCert} : cert.verifyVotes committee message = .ok () ↔
      quorumOf committee.length ≤ cert.votes.length ∧ (cert.votes.map Prod.fst).Nodup ∧
        ∀ entry ∈ cert.votes, entry.1 ∈ committee ∧ entry.2 = ⟨entry.1, message⟩ := by
  unfold verifyVotes
  constructor
  · intro verified
    split at verified
    case h_1 => cases verified
    case h_2 seen counted =>
    obtain ⟨enough, verified⟩ := refuse_eq_ok_iff.mp verified
    obtain ⟨rfl, distinct, each⟩ := (countVotes_ok_iff nodup_nil).mp counted
    rw [append_nil] at distinct enough
    rw [length_reverse, length_map] at enough
    exact ⟨not_lt.mp enough, nodup_reverse.mp distinct, each⟩
  · rintro ⟨enough, distinct, each⟩
    have counted : countVotes committee message cert.votes [] =
        .ok ((cert.votes.map Prod.fst).reverse ++ []) := by
      refine (countVotes_ok_iff nodup_nil).mpr ⟨rfl, ?_, each⟩
      rw [append_nil]
      exact nodup_reverse.mpr distinct
    rw [counted]
    simpa using enough

/-- Exactly when the certificate of a first committee is accepted. -/
theorem verify_ok_iff {cert : TmCert} : cert.verify block committee = .ok () ↔
      (cert.v = tmCertVersion ∧ cert.attempt = 0 ∧ cert.skips = []) ∧ block.miner ∈ committee ∧
        cert.verifyVotes committee
          (tmVoteMessageAt 0 .precommit block.height cert.round (some block.hash)) = .ok () := by
  unfold verify
  split
  case isTrue otherKind =>
    simp only [reduceCtorEq, false_iff]
    rintro ⟨version, -⟩
    simp [version] at otherKind
  case isFalse kind =>
    push Not at kind
    split
    case isTrue strange => simp [strange]
    case isFalse known => exact ⟨fun verified => ⟨kind, not_not.mp known, verified⟩, fun ok => ok.2.2⟩

end TmCert

namespace HeightView

variable {view : HeightView}

/-- Exactly when the certificate of a replacement is accepted. -/
theorem verifyReplacementCert_ok_iff {cert : TmCert} : view.verifyReplacementCert block cert = .ok () ↔
      (cert.attempt ≠ 0 ∧ attemptOf cert.skips = cert.attempt) ∧ ∃ chain : SkipChain,
        view.skipChain cert.skips = .ok chain ∧ block.miner ∈ chain.miners ∧
          (∀ lock, chain.carried = some lock → lock.value = block.hash) ∧
          cert.verifyVotes chain.committee (tmVoteMessageAt cert.attempt .precommit block.height
            cert.round (some block.hash)) = .ok () := by
  unfold verifyReplacementCert
  split
  case isTrue wrong =>
    simp only [reduceCtorEq, false_iff]
    rintro ⟨later, -⟩
    exact absurd wrong (by simp [later])
  case isFalse right =>
    push Not at right
    split
    case h_1 refused notOk => simp [notOk]
    case h_2 chain ok =>
    rw [and_iff_right right]
    simp only [ok, Except.ok.injEq, exists_eq_left']
    split
    case isTrue strange => simp [strange]
    case isFalse known =>
    rw [and_iff_right (not_not.mp known)]
    split
    case h_1 lock other =>
      obtain ⟨carried, differs⟩ := Option.filter_eq_some_iff.mp other
      simp only [reduceCtorEq, false_iff, not_and]
      intro same
      exact absurd (same lock carried) (of_decide_eq_true differs)
    case h_2 none =>
      refine ⟨fun verified => ⟨fun lock carried => ?_, verified⟩, fun ok => ok.2⟩
      have notOther := Option.filter_eq_none_iff.mp none lock carried
      simpa using notOther

/-- The votes of an accepted certificate are votes of the committee of its attempt. -/
theorem votes_of_verifyBlockCertificate {cert : TmCert}
    (verified : view.verifyBlockCertificate block cert = .ok ()) :
    ∃ committee, view.committeeForAttempt cert.attempt = some committee ∧
      cert.verifyVotes committee (tmVoteMessageAt cert.attempt .precommit block.height cert.round
        (some block.hash)) = .ok () := by
  unfold verifyBlockCertificate at verified
  split at verified
  case h_1 => cases verified
  case h_2 committee seated =>
  split at verified
  case isTrue =>
    obtain ⟨⟨-, attemptIs⟩, chain, ok, -, -, votes⟩ := verifyReplacementCert_ok_iff.mp verified
    rw [← attemptIs] at votes ⊢
    exact ⟨chain.committee, (skipChain_ok ok).1, votes⟩
  case isFalse =>
    obtain ⟨⟨-, first, -⟩, -, votes⟩ := TmCert.verify_ok_iff.mp verified
    rw [first]
    exact ⟨committee, seated, votes⟩

end HeightView

end EgoChain.Consensus
