import RestFleet.Verification.Snapshots.Provenance

/-! # Snapshots that are recorded while an index runs -/

namespace RestFleet.Snapshots

def Hides (before : List Entry) (e : Entry) (k : UUID × Text) : Prop :=
  (∃ row, (replay before).row k = some row ∧ row.missingAt = none) ∧
    ∃ row, (e.apply (replay before)).row k = some row ∧ row.missingAt ≠ none

/-- The snapshots whose results were recorded since the trail had a given length. -/
def recordedSince (trail : List Entry) (since : ℕ) : List (UUID × Text) :=
  (recordings (trail.drop since)).map (·.1)

variable {before : List Entry} {operationID repositoryID : UUID} {since : ℕ}
  {rows : List (Text × Row)} {marked : List Text} {now : Stamp} {k : UUID × Text}

theorem marked_of_hides (hfits : (Entry.indexed operationID repositoryID since rows marked now).Fits
    before) (h : Hides before (.indexed operationID repositoryID since rows marked now) k) :
    ∃ id ∈ marked, k = (repositoryID, id) := by
  obtain ⟨⟨old, hold, hseen⟩, new, hnew, hmissing⟩ := h
  by_contra hnot
  have hunmarked : ∀ id ∈ marked, k ≠ (repositoryID, id) := fun id hid hk => hnot ⟨id, hid, hk⟩
  have hput : (putRows repositoryID rows (replay before)).row k = some new := by
    rw [← row_markRows_ne hunmarked]
    exact hnew
  rcases row_putRows repositoryID rows (replay before) k with hsame | ⟨x, hx, -, hrow⟩
  · rw [hput, hold] at hsame
    cases hsame
    exact hmissing hseen
  · rw [hput] at hrow
    cases hrow
    exact hmissing (hfits.2.1 x hx)

/-- When an index lists every snapshot that is recorded between its listing and its commit, it
hides none of them. -/
theorem fresh_not_hidden {site : Store.Site} {start : Database}
    {c : Config (Tx.State schema) ℕ (Tx.Op schema) (Tx.Reply schema)} (hs : start.Fresh)
    (hc : (server site).Reachable (Tx.State.initial start) c) :
    c.state.db.rows = replay c.state.db.trail ∧
      ∀ before operationID repositoryID since rows marked now after,
        c.state.db.trail =
          before ++ .indexed operationID repositoryID since rows marked now :: after →
        (∀ id, (repositoryID, id) ∈ recordedSince before since → id ∈ rows.map (·.1)) →
        ∀ k, Hides before (.indexed operationID repositoryID since rows marked now) k →
          k ∉ recordedSince before since := by
  have hsound := sound_of_reachable hs hc
  refine ⟨hsound.rows, ?_⟩
  intro before operationID repositoryID since rows marked now after htrail hlisted k hhides hfresh
  have hfits := hsound.fits before _ after htrail
  obtain ⟨id, hid, rfl⟩ := marked_of_hides hfits hhides
  exact hfits.2.2 id hid (hlisted id hfresh)

open Backup (sampleID sampleResult)

/-- The result of a backup arrives between the listing of an index job and its end. -/
def resultDuringIndex (listing : List Restic.IndexedSnapshot) : List Move :=
  [.call 1 (.index (sampleID 14) (sampleID 15) ""), .go 1 4 10 listing,
    .call 0 (.result sampleResult), .go 0 100 15 [], .go 1 100 20 []]

theorem resultDuringIndex_arrives (listing : List Restic.IndexedSnapshot) :
    ∀ move ∈ resultDuringIndex listing, move.Arrives sampleSite := by
  simp [resultDuringIndex, Move.Arrives, Call.Arrives]

/-- A trail that ends in an index of which `p` holds, given what stands before it. -/
def endsIn (p : List Entry → UUID → ℕ → List (Text × Row) → Entry → Bool) : List Entry → Bool
  | [first, .indexed operationID repositoryID since rows marked now] =>
    p [first] repositoryID since rows (.indexed operationID repositoryID since rows marked now)
  | _ => false

theorem exists_of_endsIn {p : List Entry → UUID → ℕ → List (Text × Row) → Entry → Bool}
    {trail : List Entry} (h : endsIn p trail = true) :
    ∃ before operationID repositoryID since rows marked now,
      trail = before ++ [.indexed operationID repositoryID since rows marked now] ∧
      p before repositoryID since rows
        (.indexed operationID repositoryID since rows marked now) = true := by
  unfold endsIn at h
  split at h
  · exact ⟨_, _, _, _, _, _, _, rfl, h⟩
  · cases h

/-- A listing that already holds the snapshot whose result arrives next. -/
theorem fresh_not_hidden_listed :
    ∃ c before operationID repositoryID since rows marked now,
      (server sampleSite).Reachable (Tx.State.initial sampleStart) c ∧
      c.state.db.trail = before ++ [.indexed operationID repositoryID since rows marked now] ∧
      recordedSince before since ≠ [] ∧
      ∀ k, Hides before (.indexed operationID repositoryID since rows marked now) k →
        k ∉ recordedSince before since := by
  have hplay : (play sampleSite sampleStart
      (resultDuringIndex [sampleSnapshot 'a' planTags])).any (fun m =>
        endsIn (fun before repositoryID since rows _ => recordedSince before since ≠ [] &&
          (recordedSince before since).all fun k => k.1 = repositoryID && k.2 ∈ rows.map (·.1))
          m.db.trail) = true := by
    decide +kernel
  obtain ⟨m, hm, hends⟩ := (Option.any_eq_true _ _).mp hplay
  obtain ⟨before, operationID, repositoryID, since, rows, marked, now, htrail, hchecks⟩ :=
    exists_of_endsIn hends
  simp only [Bool.and_eq_true, decide_eq_true_eq, List.all_eq_true] at hchecks
  have hreach := reachable_of_play (resultDuringIndex_arrives _) hm
  refine ⟨_, before, operationID, repositoryID, since, rows, marked, now, hreach, htrail, hchecks.1,
    (fresh_not_hidden sampleStart_fresh hreach).2 before operationID repositoryID since rows marked
      now [] htrail fun id hid => ?_⟩
  exact (hchecks.2 (repositoryID, id) hid).2

/-- A snapshot that is taken after the listing is marked as missing, although its result was
recorded meanwhile. -/
theorem fresh_hidden :
    ∃ c before operationID repositoryID since rows marked now k,
      (server sampleSite).Reachable (Tx.State.initial sampleStart) c ∧
      c.state.db.trail = before ++ [.indexed operationID repositoryID since rows marked now] ∧
      Hides before (.indexed operationID repositoryID since rows marked now) k ∧
      k ∈ recordedSince before since ∧
      ∃ row, c.state.db.rows.row k = some row ∧ row.missingAt ≠ none := by
  have hplay : (play sampleSite sampleStart (resultDuringIndex [])).any (fun m =>
      endsIn (fun before _ since _ e =>
        (sampleID 4, List.replicate 64 'a') ∈ recordedSince before since &&
          ((replay before).row (sampleID 4, List.replicate 64 'a')).any (·.missingAt = none) &&
          ((e.apply (replay before)).row (sampleID 4, List.replicate 64 'a')).any
            (·.missingAt ≠ none)) m.db.trail) = true := by
    decide +kernel
  obtain ⟨m, hm, hends⟩ := (Option.any_eq_true _ _).mp hplay
  obtain ⟨before, operationID, repositoryID, since, rows, marked, now, htrail, hchecks⟩ :=
    exists_of_endsIn hends
  simp only [Bool.and_eq_true, decide_eq_true_eq] at hchecks
  obtain ⟨⟨hfresh, hold⟩, hnew⟩ := hchecks
  obtain ⟨old, hrow, hseen⟩ := (Option.any_eq_true _ _).mp hold
  obtain ⟨new, hrow', hmissing⟩ := (Option.any_eq_true _ _).mp hnew
  have hreach := reachable_of_play (resultDuringIndex_arrives _) hm
  have hrows : m.db.rows = replay m.db.trail := (sound_of_reachable sampleStart_fresh hreach).rows
  refine ⟨_, before, operationID, repositoryID, since, rows, marked, now, _, hreach, htrail,
    ⟨⟨old, hrow, of_decide_eq_true hseen⟩, new, hrow', of_decide_eq_true hmissing⟩, hfresh, new, ?_,
    of_decide_eq_true hmissing⟩
  change m.db.rows.row _ = _
  rw [hrows, htrail, replay_snoc]
  exact hrow'

end RestFleet.Snapshots
