import MediaHub.Bazarr.Complete

/-!
# How many requests a batch takes

Whatever the server answers, a batch of `n` subtitles is done or given up after at most
`4 * (2 * n - 1)` requests: each of the `2 * n - 1` batches it can be split into is sent
once, and three times more.  A request that is rate limited takes one of the three; the
last of them falls through to the split, as any other failure does.

## Main results

* `processBatch_sent_le` — the requests, for any number of retries left.
* `processBatch_bounded` — **the bound**, and a batch that was done is empty, whichever
  call it belongs to.
-/

namespace MediaHub
namespace Bazarr

variable (U : Unicodedata) (P : Interpreter) (W : World) (cfg : Config)

/-- A request is entered among the exchanges, and a rotation of the keys is not. -/
theorem translation_logged : (translation U P W cfg).Logged (·.exchanges) where
  attempt := by
    intro batch st o st' h
    refine ⟨[exchange P W cfg batch st], ?_, le_rfl⟩
    show st'.exchanges = _
    -- an attempt ends in four ways, and each has sent the request
    rcases attempt_cases U P W cfg batch st with ⟨e, -, hst⟩ | ⟨lines, e, subtitles, -, -, hst⟩ |
      ⟨lines, subtitles, -, -, -, hst⟩ | ⟨lines, subtitles, -, -, -, hst⟩
    all_goals
      have heq := hst.symm.trans h
      cases heq
      rfl
  recover := by
    intro e st o st' h
    obtain ⟨pool, rfl⟩ := rotateKey_state U P W cfg h
    rfl

/-- The requests for a batch, with any number of retries left. -/
theorem processBatch_sent_le {batch : List SubtitleObject} (hbatch : batch ≠ []) (retry : ℕ)
    (st : State) :
    ∃ sent, (processBatch U P W cfg batch retry st).2.2.exchanges = st.exchanges ++ sent ∧
      sent.length ≤ (retry + 1) + 4 * (2 * (batch.length - 1)) :=
  (processBatch_spec U P W cfg batch retry st).1.sent_le (translation_logged U P W cfg) hbatch

/-- **The bound on the requests**: a batch of `n` subtitles ends after at most
`4 * (2 * n - 1)` requests, and every call that returns has emptied its batch. -/
theorem processBatch_bounded {batch : List SubtitleObject} (hbatch : 1 ≤ batch.length)
    (st : State) :
    (∃ sent, (processBatch U P W cfg batch retryNum st).2.2.exchanges = st.exchanges ++ sent ∧
      sent.length ≤ 4 * (2 * batch.length - 1)) ∧
    ∀ (part : List SubtitleObject) (retry : ℕ) (before : State) (progress : ℕ)
      (left : List SubtitleObject) (after : State),
      processBatch U P W cfg part retry before = (.ok progress, left, after) → left = [] := by
  constructor
  · obtain ⟨sent, hsent, hlen⟩ :=
      processBatch_sent_le U P W cfg (List.length_pos_iff.mp hbatch) retryNum st
    refine ⟨sent, hsent, ?_⟩
    rw [retryNum] at hlen
    omega
  · intro part retry before progress left after h
    exact (processBatch_eq_ok U P W cfg h).1

/-- A server that cannot be reached. -/
def unreachable : World := ⟨fun _ => .error (.request none), fun _ => 0, fun _ => false⟩

theorem processBatch_bounded_unreachable :
    ∃ sent, (processBatch .ascii (reading bothLines bothLinesJson) unreachable spanish
        [⟨"0", .str "hello"⟩, ⟨"1", .str "bye"⟩] retryNum
        (.initial twoSubtitles freshPool)).2.2.exchanges = [] ++ sent ∧ sent.length ≤ 12 :=
  (processBatch_bounded .ascii (reading bothLines bothLinesJson) unreachable spanish
    (by decide) (.initial twoSubtitles freshPool)).1

end Bazarr
end MediaHub
