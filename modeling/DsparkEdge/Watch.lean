import DsparkEdge.Service
import Mathlib.Data.List.DropRight

/-! The `--watch` renderer (`watch_renderer.cpp`): a transcript of styled text regions, changed by the
    events the RPC handlers queue. What is drawn of it is left out; `piece` is the vocabulary's
    `common_token_to_piece`.

        accepted  ─▶ … │ confirmed
        draft     ─▶ … │ pending                    its tokens are remembered
        verdict   ─▶ … │ match │ first mismatch │ rest of the accepted     for the pending tail
        reset     ─▶ empty

    Whatever a verdict is compared with, its confirmed regions spell out exactly the accepted tokens. -/

namespace DsparkEdge

inductive RegionState where
  | confirmed
  | pending
  | rejected
  deriving DecidableEq, Repr

structure Region where
  text : String
  st : RegionState
  deriving DecidableEq, Repr

/-- The worker's state: the transcript, and the tokens of the pending block. -/
structure Watch where
  transcript : List Region
  pendingTokens : List ℤ
  deriving DecidableEq, Repr

def Watch.fresh : Watch := ⟨[], []⟩

def Region.isPending (r : Region) : Bool := r.st = .pending

/-- Remove the pending regions from the tail. -/
def popPending (transcript : List Region) : List Region := transcript.rdropWhile Region.isPending

/-- The length of the longest matching prefix. -/
def matchLength : List ℤ → List ℤ → ℕ
  | p :: pending, a :: accepted => if p = a then matchLength pending accepted + 1 else 0
  | _, _ => 0

section Handlers

variable (piece : ℤ → String)

def detokenize (tokens : List ℤ) : String := String.join (tokens.map piece)

def Watch.handleAccepted (tokens : List ℤ) (w : Watch) : Watch :=
  if tokens.isEmpty then w
  else { w with transcript := w.transcript ++ [⟨detokenize piece tokens, .confirmed⟩] }

def Watch.handleDraft (tokens : List ℤ) (w : Watch) : Watch :=
  if tokens.isEmpty then w
  else ⟨w.transcript ++ [⟨detokenize piece tokens, .pending⟩], tokens⟩

/-- What replaces the pending tail: the match, the first rejected token, the correction. -/
def verdictRegions (pending accepted : List ℤ) : List Region :=
  let m := matchLength pending accepted
  (if 0 < m then [⟨detokenize piece (pending.take m), .confirmed⟩] else []) ++
  (if m < pending.length then [⟨detokenize piece [pending.getD m 0], .rejected⟩] else []) ++
  (if m < accepted.length then [⟨detokenize piece (accepted.drop m), .confirmed⟩] else [])

def Watch.handleVerdict (accepted : List ℤ) (w : Watch) : Watch :=
  if w.pendingTokens.isEmpty then
    if accepted.isEmpty then w
    else { w with transcript := w.transcript ++ [⟨detokenize piece accepted, .confirmed⟩] }
  else ⟨popPending w.transcript ++ verdictRegions piece w.pendingTokens accepted, []⟩

/-- One turn of the worker. -/
def Watch.handle (w : Watch) : WatchEvent → Watch
  | .accepted tokens => w.handleAccepted piece tokens
  | .draft tokens => w.handleDraft piece tokens
  | .verdict tokens => w.handleVerdict piece tokens
  | .reset => .fresh

/-- The renderer after it has handled a queue of events. -/
def Watch.run (events : List WatchEvent) : Watch := events.foldl (Watch.handle piece) .fresh

end Handlers

/-! ### What a transcript says -/

/-- The text of the confirmed regions. -/
def confirmedText (regions : List Region) : String :=
  String.join ((regions.filter fun r => r.st = .confirmed).map Region.text)

/-- The texts of the rejected regions, one by one. -/
def rejectedTexts (regions : List Region) : List String :=
  (regions.filter fun r => r.st = .rejected).map Region.text

variable (piece : ℤ → String)

theorem detokenize_append (xs ys : List ℤ) :
    detokenize piece (xs ++ ys) = detokenize piece xs ++ detokenize piece ys := by
  rw [detokenize, List.map_append, String.join_append]; rfl

theorem confirmedText_append (xs ys : List Region) :
    confirmedText (xs ++ ys) = confirmedText xs ++ confirmedText ys := by
  rw [confirmedText, List.filter_append, List.map_append, String.join_append]; rfl

theorem rejectedTexts_append (xs ys : List Region) :
    rejectedTexts (xs ++ ys) = rejectedTexts xs ++ rejectedTexts ys := by
  rw [rejectedTexts, List.filter_append, List.map_append]; rfl

theorem take_matchLength : ∀ pending accepted : List ℤ,
    pending.take (matchLength pending accepted) = accepted.take (matchLength pending accepted)
  | [], _ => by simp [matchLength]
  | _ :: _, [] => by simp [matchLength]
  | p :: pending, a :: accepted => by
    rw [matchLength]
    split
    case isTrue h => rw [List.take_succ_cons, List.take_succ_cons, h, take_matchLength]
    case isFalse => rfl

@[simp] theorem detokenize_nil : detokenize piece [] = "" := by simp [detokenize]

@[simp] theorem detokenize_singleton (tok : ℤ) : detokenize piece [tok] = piece tok := by
  simp [detokenize]

/-- The confirmed regions of a verdict spell out the accepted tokens, whatever was pending. -/
theorem confirmedText_verdict (pending accepted : List ℤ) :
    confirmedText (verdictRegions piece pending accepted) = detokenize piece accepted := by
  have hsplit := congrArg (detokenize piece)
    (List.take_append_drop (matchLength pending accepted) accepted)
  rw [detokenize_append, ← take_matchLength] at hsplit
  rw [← hsplit]
  simp only [verdictRegions, confirmedText_append]
  have hmatch : confirmedText (if 0 < matchLength pending accepted then
      [⟨detokenize piece (pending.take (matchLength pending accepted)), .confirmed⟩] else []) =
      detokenize piece (pending.take (matchLength pending accepted)) := by
    rcases Nat.eq_zero_or_pos (matchLength pending accepted) with h | h
    · simp [h, confirmedText]
    · simp [h, confirmedText]
  have hreject : confirmedText (if matchLength pending accepted < pending.length then
      [⟨detokenize piece [pending.getD (matchLength pending accepted) 0], .rejected⟩] else []) =
      "" := by
    split <;> simp [confirmedText]
  have hrest : confirmedText (if matchLength pending accepted < accepted.length then
      [⟨detokenize piece (accepted.drop (matchLength pending accepted)), .confirmed⟩] else []) =
      detokenize piece (accepted.drop (matchLength pending accepted)) := by
    split
    case isTrue h => simp [confirmedText]
    case isFalse h => simp [confirmedText, List.drop_eq_nil_of_le (Nat.not_lt.mp h)]
  rw [hmatch, hreject, hrest, String.append_empty]

/-- A verdict rejects the first pending token that does not match. -/
theorem rejectedTexts_verdict (pending accepted : List ℤ) :
    rejectedTexts (verdictRegions piece pending accepted) =
      (pending[matchLength pending accepted]?.map piece).toList := by
  simp only [verdictRegions, rejectedTexts_append]
  have hconfirmed : ∀ (c : Prop) [Decidable c] (text : String),
      rejectedTexts (if c then [⟨text, .confirmed⟩] else []) = [] := by
    intro c _ text
    split <;> simp [rejectedTexts]
  rw [hconfirmed, hconfirmed, List.nil_append, List.append_nil]
  split
  case isTrue h => simp [rejectedTexts, h]
  case isFalse h => simp [rejectedTexts, List.getElem?_eq_none (Nat.not_lt.mp h)]

/-! ### The pending block -/

theorem run_append (events more : List WatchEvent) :
    Watch.run piece (events ++ more) = more.foldl (Watch.handle piece) (Watch.run piece events) := by
  rw [Watch.run, List.foldl_append]; rfl

/-- What a block shows: a pending region, or nothing. -/
theorem handleDraft_shown (tokens : List ℤ) (w : Watch) : ∃ shown,
    (w.handleDraft piece tokens).transcript = w.transcript ++ shown ∧
      confirmedText shown = "" ∧ rejectedTexts shown = [] := by
  rw [Watch.handleDraft]
  split
  · exact ⟨[], (List.append_nil _).symm, rfl, rfl⟩
  · exact ⟨_, rfl, rfl, rfl⟩

/-- The next verdict takes the place of the pending block: it confirms the accepted tokens and rejects
    the first token of the block that does not match them. -/
theorem run_next_verdict (events : List WatchEvent) (earlier accepted next : List ℤ) {block : List ℤ}
    (hne : block ≠ []) :
    let events₁ := events ++ [.verdict earlier, .draft block]
    ∃ shown, (Watch.run piece (events₁ ++ [.verdict accepted, .draft next])).transcript =
        popPending (Watch.run piece events₁).transcript ++ shown ∧
      confirmedText shown = detokenize piece accepted ∧
      rejectedTexts shown = (block[matchLength block accepted]?.map piece).toList := by
  intro events₁
  have hpending : (Watch.run piece events₁).pendingTokens = block := by
    rw [run_append]
    simp only [List.foldl_cons, List.foldl_nil, Watch.handle, Watch.handleDraft, List.isEmpty_iff, hne,
      if_false]
  obtain ⟨tail, htail, hconfirmed, hrejected⟩ := handleDraft_shown piece next
    ((Watch.run piece events₁).handleVerdict piece accepted)
  refine ⟨verdictRegions piece block accepted ++ tail, ?_, ?_, ?_⟩
  · rw [run_append]
    simp only [List.foldl_cons, List.foldl_nil, Watch.handle, htail]
    simp only [Watch.handleVerdict, hpending, List.isEmpty_iff, hne, if_false, List.append_assoc]
  · rw [confirmedText_append, confirmedText_verdict, hconfirmed, String.append_empty]
  · rw [rejectedTexts_append, rejectedTexts_verdict, hrejected, List.append_nil]

end DsparkEdge
