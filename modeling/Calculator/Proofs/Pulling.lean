import Mathlib.Data.List.TakeDrop
import Calculator.Proofs.Scanning

namespace Calculator

inductive Pull where
  | next
  | next?
  | take (count : Nat)
  | collect
  deriving DecidableEq, Repr

namespace Pull

def handed (t : Tokenizer) : Pull → List Lexeme
  | next => if t.next.1.isEnd then [] else [t.next.1]
  | next? => t.next?.1.toList
  | take count => (t.take count).1
  | collect => t.collect.1

def reportsEnd (t : Tokenizer) : Pull → Bool
  | next => t.next.1.isEnd
  | next? => t.next?.1.isNone
  | take count => (t.take count).1.length < count
  | collect => true

def perform (t : Tokenizer) : Pull → Tokenizer
  | next => t.next.2
  | next? => t.next?.2
  | take count => (t.take count).2
  | collect => t.collect.2

/-- How many times the next lexeme is asked for, an end that is found included. -/
def calls (t : Tokenizer) : Pull → Nat
  | next | next? => 1
  | take count => min count (t.lexemes.length + 1)
  | collect => t.lexemes.length + 1

end Pull

namespace Tokenizer

theorem take_eq (t : Tokenizer) (count : Nat) :
    t.take count =
      (t.lexemes.take count, t.after (min count (t.lexemes.length + 1))) := by
  induction count generalizing t with
  | zero => simp [take]
  | succ count ih =>
    simp only [take]
    cases he : t.next.1.isEnd with
    | true => simp [lexemes_of_isEnd he, after_succ]
    | false =>
      rw [lexemes_of_not_isEnd he, ih, List.length_cons, Nat.succ_min_succ]
      rfl

theorem collectOnto_snd (t : Tokenizer) (collected : Array Lexeme) :
    (t.collectOnto collected).2 = t.after (t.lexemes.length + 1) := by
  fun_induction collectOnto t collected with
  | case1 t collected step h =>
    rw [lexemes_of_isEnd h]
    rfl
  | case2 t collected step h ih =>
    rw [Bool.not_eq_true] at h
    rw [ih, lexemes_of_not_isEnd h, List.length_cons]
    rfl

theorem collect_snd (t : Tokenizer) : t.collect.2 = t.after (t.lexemes.length + 1) :=
  collectOnto_snd t #[]

theorem lexemes_eq_nil_iff (t : Tokenizer) : t.lexemes = [] ↔ t.next.1.isEnd = true := by
  cases he : t.next.1.isEnd with
  | true => simp [lexemes_of_isEnd he]
  | false => simp [lexemes_of_not_isEnd he]

end Tokenizer

namespace Pull

variable (p : Pull) (t : Tokenizer)

theorem perform_eq : p.perform t = t.after (p.calls t) := by
  cases p with
  | next | next? => rfl
  | take count => rw [perform, t.take_eq, calls]
  | collect => rw [perform, t.collect_snd, calls]

theorem handed_eq : p.handed t = t.lexemes.take (p.calls t) := by
  cases p with
  | next | next? =>
    cases he : t.next.1.isEnd with
    | true => simp [handed, Tokenizer.next?, he, Tokenizer.lexemes_of_isEnd he]
    | false => simp [handed, calls, Tokenizer.next?, he, Tokenizer.lexemes_of_not_isEnd he]
  | take count =>
    rw [handed, t.take_eq, calls, List.take_eq_take_iff]
    omega
  | collect =>
    rw [handed, t.collect_fst, calls, List.take_of_length_le (Nat.le_succ _)]

theorem reportsEnd_iff : p.reportsEnd t = true ↔ t.lexemes.length < p.calls t := by
  cases p with
  | next | next? =>
    cases he : t.next.1.isEnd with
    | true => simp [reportsEnd, calls, Tokenizer.next?, he, Tokenizer.lexemes_of_isEnd he]
    | false => simp [reportsEnd, calls, Tokenizer.next?, he, Tokenizer.lexemes_of_not_isEnd he]
  | take count =>
    rw [reportsEnd, t.take_eq, calls, List.length_take, decide_eq_true_eq]
    omega
  | collect => simp [reportsEnd, calls]

end Pull

structure Session where
  tokenizer : Tokenizer
  handed : List Lexeme
  ended : Bool

def Session.pull (s : Session) (p : Pull) : Session :=
  ⟨p.perform s.tokenizer, s.handed ++ p.handed s.tokenizer, s.ended || p.reportsEnd s.tokenizer⟩

def session (source : String) (pulls : List Pull) : Session :=
  pulls.foldl Session.pull ⟨.ofString source, [], false⟩

structure Session.Behind (s : Session) (source : String) (n : Nat) : Prop where
  tokenizer_eq : s.tokenizer = (Tokenizer.ofString source).after n
  handed_eq : s.handed = (lexemesOf source).take n
  ended_iff : s.ended = true ↔ (lexemesOf source).length < n

namespace Session.Behind

variable {s : Session} {source : String} {n : Nat}

theorem lexemes_eq (h : s.Behind source n) :
    s.tokenizer.lexemes = (lexemesOf source).drop n := by
  rw [h.tokenizer_eq, Tokenizer.after_lexemes]
  rfl

theorem pull (h : s.Behind source n) (p : Pull) :
    (s.pull p).Behind source (n + p.calls s.tokenizer) where
  tokenizer_eq := by
    rw [Session.pull, p.perform_eq]
    simp only
    rw [h.tokenizer_eq, Tokenizer.after_after]
  handed_eq := by
    rw [Session.pull, p.handed_eq, h.handed_eq, h.lexemes_eq, List.take_add]
  ended_iff := by
    rw [Session.pull, Bool.or_eq_true, h.ended_iff, p.reportsEnd_iff, h.lexemes_eq,
      List.length_drop]
    omega

theorem pulls (h : s.Behind source n) (ps : List Pull) :
    ∃ m, (ps.foldl Session.pull s).Behind source m := by
  induction ps generalizing s n with
  | nil => exact ⟨n, h⟩
  | cons p ps ih => exact ih (h.pull p)

end Session.Behind

theorem session_behind (source : String) (pulls : List Pull) :
    ∃ n, (session source pulls).Behind source n := by
  have hstart : Session.Behind ⟨.ofString source, [], false⟩ source 0 := ⟨rfl, rfl, by simp⟩
  exact hstart.pulls pulls

structure InStep (source : String) (t : Tokenizer) : Prop where
  cursor_eq : t.next.2.cursor = t.next.2.span.2
  cursor_le : t.cursor ≤ t.next.2.cursor
  cursor_lt : t.next.1.isEnd = false → t.cursor < t.next.2.cursor
  le_size : t.next.2.cursor ≤ source.utf8ByteSize
  boundary : ∃ before after, source = before ++ after ∧
    before.utf8ByteSize = t.next.2.cursor
  at_end : t.next.1.isEnd = true → t.next.2.cursor = source.utf8ByteSize ∧
    t.next.2.span = (source.utf8ByteSize, source.utf8ByteSize)
  stays : t.next.1.isEnd = true → t.next.2.next.1.isEnd = true

theorem Tokenizer.inStep_after (source : String) (n : Nat) :
    InStep source ((Tokenizer.ofString source).after n) := by
  have hfinish := (Tokenizer.ofString source).after_finish n
  obtain ⟨read, hread, hcursor⟩ := (Tokenizer.ofString source).after_ahead (n + 1)
  rw [← after_after, after_succ, after_zero] at hread hcursor
  generalize (Tokenizer.ofString source).after n = t at hfinish hread hcursor ⊢
  rw [finish_ofString] at hfinish
  have hstop : t.next.2.cursor = t.next.1.stop := rfl
  have hspan : t.next.2.span = (t.next.1.start, t.next.1.stop) := rfl
  have hstart := t.next_start
  have hle := t.next.1.start_le_stop
  have hsize := t.next_finish
  rw [finish, hfinish] at hsize
  refine ⟨rfl, by omega, fun he => ?_, by omega, ?_, fun he => ?_, fun he => ?_⟩
  · obtain ⟨blanks, c, cs, _, _, hl⟩ := next_of_not_isEnd he
    have hpos := byteLength_pos (List.cons_ne_nil c cs)
    rw [hstop, hl, Lexeme.stop, ← byteLength]
    simp only
    omega
  · refine ⟨String.ofList read, String.ofList t.next.2.ahead, ?_, ?_⟩
    · rw [← String.ofList_append, ← hread]
      exact String.ofList_toList.symm
    · rw [hcursor]
      exact (Nat.zero_add _).symm
  · have hend := (next_of_isEnd he).1
    rw [hspan, hstop, hend, hfinish]
    exact ⟨rfl, rfl⟩
  · rw [next_isEnd, (next_of_isEnd he).2]
    rfl

theorem pulls_in_order (source : String) (pulls : List Pull) :
    (∀ n, InStep source ((Tokenizer.ofString source).after n)) ∧
    let s := session source pulls
    (∃ n, s.Behind source n ∧ ∀ p : Pull,
      p.perform s.tokenizer = s.tokenizer.after (p.calls s.tokenizer) ∧
      p.handed s.tokenizer = ((lexemesOf source).drop n).take (p.calls s.tokenizer)) ∧
    (s.ended = true → s.handed = lexemesOf source ∧
      s.tokenizer.cursor = source.utf8ByteSize ∧
      s.tokenizer.span = (source.utf8ByteSize, source.utf8ByteSize) ∧
      ∀ p : Pull, p ≠ .take 0 →
        p.handed s.tokenizer = [] ∧ p.reportsEnd s.tokenizer = true) := by
  refine ⟨Tokenizer.inStep_after source, ?_⟩
  intro s
  obtain ⟨n, hn⟩ := session_behind source pulls
  refine ⟨⟨n, hn, fun p => ⟨p.perform_eq _, ?_⟩⟩, fun hended => ?_⟩
  · rw [p.handed_eq, hn.lexemes_eq]
  · have hlt := hn.ended_iff.mp hended
    obtain ⟨m, rfl⟩ : ∃ m, n = m + 1 := ⟨n - 1, by omega⟩
    have hnone : s.tokenizer.lexemes = [] := by
      rw [hn.lexemes_eq, List.drop_of_length_le (Nat.le_of_lt hlt)]
    have hat : ((Tokenizer.ofString source).after m).next.1.isEnd = true := by
      rw [← Tokenizer.lexemes_eq_nil_iff, Tokenizer.after_lexemes]
      exact List.drop_of_length_le (Nat.le_of_lt_succ hlt)
    have hin := (Tokenizer.inStep_after source m).at_end hat
    have hself := hn.tokenizer_eq
    rw [← Tokenizer.after_after, Tokenizer.after_succ, Tokenizer.after_zero] at hself
    rw [← hself] at hin
    refine ⟨?_, hin.1, hin.2, fun p hp => ?_⟩
    · rw [hn.handed_eq, List.take_of_length_le (Nat.le_of_lt hlt)]
    · rw [p.handed_eq, p.reportsEnd_iff, hnone]
      refine ⟨List.take_nil, ?_⟩
      cases p with
      | next | next? => exact Nat.one_pos
      | take count =>
        rw [Pull.calls, hnone]
        exact Nat.lt_min.mpr
          ⟨Nat.pos_of_ne_zero fun h => hp (congrArg Pull.take h), Nat.one_pos⟩
      | collect => exact Nat.succ_pos _

end Calculator
