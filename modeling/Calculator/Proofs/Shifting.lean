import Mathlib.Data.List.TakeWhile
import Calculator.Proofs.Scanning

namespace Calculator

def Lexeme.shift (k : Nat) (l : Lexeme) : Lexeme :=
  { l with start := l.start + k }

theorem Lexeme.stop_shift (k : Nat) (l : Lexeme) : (l.shift k).stop = l.stop + k :=
  Nat.add_right_comm _ _ _

def Joined (cs ds : List Char) : Prop :=
  cs.getLast?.any Char.isDigit = true ∧ ds.head?.any Char.isDigit = true

instance (cs ds : List Char) : Decidable (Joined cs ds) :=
  inferInstanceAs (Decidable (_ = true ∧ _ = true))

theorem Joined.of_suffix {cs ds es : List Char} (h : Joined cs es) (hs : cs <:+ ds) :
    Joined ds es := by
  obtain ⟨hlast, hfirst⟩ := h
  obtain ⟨c, hc, hdigit⟩ := (Option.any_eq_true _ _).mp hlast
  obtain ⟨before, rfl⟩ := hs
  refine ⟨(Option.any_eq_true _ _).mpr ⟨c, ?_, hdigit⟩, hfirst⟩
  rw [List.getLast?_append, hc, Option.some_or]

theorem span_append {p : Char → Bool} {run rest : List Char} (hrun : ∀ c ∈ run, p c = true)
    (hrest : ∀ c ∈ rest.head?, p c = false) :
    (run ++ rest).takeWhile p = run ∧ (run ++ rest).dropWhile p = rest := by
  rw [List.takeWhile_append_of_pos hrun, List.dropWhile_append_of_pos hrun]
  cases rest with
  | nil => simp
  | cons c rest =>
    have hc := hrest c rfl
    simp [hc]

theorem cut_append_of_not_joined {cs ds : List Char} (hne : cs ≠ []) (h : ¬ Joined cs ds) :
    cut (cs ++ ds) = ((cut cs).1, (cut cs).2 ++ ds) := by
  obtain ⟨c, cs, rfl⟩ := List.exists_cons_of_ne_nil hne
  simp only [List.cons_append, cut]
  split
  · rename_i hdigit
    have hsplit := List.takeWhile_append_dropWhile (p := Char.isDigit) (l := cs)
    have hrun : ∀ x ∈ cs.takeWhile Char.isDigit, x.isDigit = true :=
      fun x hx => List.mem_takeWhile_imp hx
    have hrest : ∀ x ∈ (cs.dropWhile Char.isDigit ++ ds).head?, x.isDigit = false := by
      intro x hx
      cases hd : cs.dropWhile Char.isDigit with
      | nil =>
        rw [hd, List.append_nil] at hsplit
        rw [hsplit] at hrun
        rw [hd, List.nil_append] at hx
        rw [← Bool.not_eq_true]
        intro hxdigit
        refine h ⟨(Option.any_eq_true _ _).mpr ⟨_, List.getLast?_eq_some_getLast hne, ?_⟩,
          (Option.any_eq_true _ _).mpr ⟨x, hx, hxdigit⟩⟩
        rcases List.mem_cons.mp (List.getLast_mem hne) with hlast | hlast
        · rw [hlast]
          exact hdigit
        · exact hrun _ hlast
      | cons y rest =>
        have hy := List.head_dropWhile_not Char.isDigit (l := cs) (by simp [hd])
        simp only [hd, List.head_cons] at hy
        rw [hd, List.cons_append, List.head?_cons, Option.mem_def, Option.some.injEq] at hx
        rwa [← hx]
    have hspan := span_append hrun hrest
    rw [← List.append_assoc, hsplit] at hspan
    rw [hspan.1, hspan.2]
  · rfl

namespace Tokenizer

def shift (k : Nat) (t : Tokenizer) : Tokenizer :=
  ⟨t.ahead, t.cursor + k, t.latest.map (Lexeme.shift k)⟩

theorem next_shift (k : Nat) (t : Tokenizer) :
    (t.shift k).next = (t.next.1.shift k, t.next.2.shift k) := by
  have hfst : (t.shift k).next.1 = t.next.1.shift k := by
    simp only [next, shift, Lexeme.shift, Lexeme.mk.injEq, true_and, and_true]
    exact Nat.add_right_comm _ _ _
  have hsnd : (t.shift k).next.2 = t.next.2.shift k := by
    change Tokenizer.mk _ (t.shift k).next.1.stop (some (t.shift k).next.1) = _
    rw [hfst, Lexeme.stop_shift]
    rfl
  exact Prod.ext hfst hsnd

theorem finish_shift (k : Nat) (t : Tokenizer) : (t.shift k).finish = t.finish + k :=
  Nat.add_right_comm _ _ _

theorem lexemes_shift (k : Nat) (t : Tokenizer) :
    (t.shift k).lexemes = t.lexemes.map (Lexeme.shift k) := by
  induction t using lexemes.induct with
  | case1 t he =>
    rw [lexemes_of_isEnd he, lexemes_of_isEnd, List.map_nil]
    rw [next_shift]
    exact he
  | case2 t he ih =>
    rw [Bool.not_eq_true] at he
    rw [lexemes_of_not_isEnd he, lexemes_of_not_isEnd, List.map_cons, next_shift, ih]
    rw [next_shift]
    exact he

theorem lexemes_congr {t u : Tokenizer} (h : t.next = u.next) : t.lexemes = u.lexemes := by
  rw [lexemes, lexemes.eq_1 u, h]

theorem next_skip {blanks : List Char} (h : ∀ c ∈ blanks, isBlank c = true) (cs : List Char)
    (cursor : Nat) (latest other : Option Lexeme) :
    (Tokenizer.mk (blanks ++ cs) cursor latest).next =
      (Tokenizer.mk cs (cursor + byteLength blanks) other).next := by
  simp only [next]
  rw [List.takeWhile_append_of_pos h, List.dropWhile_append_of_pos h, String.ofList_append,
    String.utf8ByteSize_append, ← Nat.add_assoc]
  rfl

theorem next_append {t : Tokenizer} {cs : List Char} (ht : t.next.1.isEnd = false)
    (h : ¬ Joined t.ahead cs) :
    Tokenizer.next { t with ahead := t.ahead ++ cs } =
      (t.next.1, { t.next.2 with ahead := t.next.2.ahead ++ cs }) := by
  have hne : t.ahead.dropWhile isBlank ≠ [] := by
    intro hnil
    rw [next_isEnd, hnil] at ht
    cases ht
  have hjoined : ¬ Joined (t.ahead.dropWhile isBlank) cs :=
    fun hj => h (hj.of_suffix (List.dropWhile_suffix _))
  have htake : (t.ahead ++ cs).takeWhile isBlank = t.ahead.takeWhile isBlank := by
    have hlength := congrArg List.length
      (List.takeWhile_append_dropWhile (p := isBlank) (l := t.ahead))
    have hpos := List.length_pos_iff.mpr hne
    rw [List.length_append] at hlength
    rw [List.takeWhile_append, if_neg (by omega)]
  have hdrop : (t.ahead ++ cs).dropWhile isBlank = t.ahead.dropWhile isBlank ++ cs := by
    rw [List.dropWhile_append, if_neg (by simpa using hne)]
  simp only [next, htake, hdrop, cut_append_of_not_joined hne hjoined]

theorem lexemes_append {t : Tokenizer} {cs : List Char} (h : ¬ Joined t.ahead cs)
    (latest : Option Lexeme) :
    Tokenizer.lexemes { t with ahead := t.ahead ++ cs } =
      t.lexemes ++ (Tokenizer.mk cs t.finish latest).lexemes := by
  induction t using lexemes.induct with
  | case1 t he =>
    rw [lexemes_of_isEnd he, List.nil_append]
    have hblank : ∀ c ∈ t.ahead, isBlank c = true := by
      rwa [next_isEnd, List.isEmpty_iff, List.dropWhile_eq_nil_iff] at he
    exact lexemes_congr (next_skip hblank cs t.cursor t.latest latest)
  | case2 t he ih =>
    rw [Bool.not_eq_true] at he
    have hnext := next_append he h
    have hrest : ¬ Joined t.next.2.ahead cs := by
      refine fun hj => h (hj.of_suffix ?_)
      refine ⟨t.ahead.takeWhile isBlank ++ t.next.1.text.toList, ?_⟩
      rw [List.append_assoc]
      exact t.next_text_append
    rw [lexemes_of_not_isEnd he, lexemes_of_not_isEnd (by rw [hnext]; exact he), hnext,
      List.cons_append, ← t.next_finish, ← ih hrest]

end Tokenizer

theorem lexemesOf_append {source later : String} (h : ¬ Joined source.toList later.toList) :
    lexemesOf (source ++ later) =
      lexemesOf source ++ (lexemesOf later).map (Lexeme.shift source.utf8ByteSize) := by
  have happend := Tokenizer.lexemes_append (t := .ofString source) h none
  rw [Tokenizer.finish_ofString] at happend
  have hshift := Tokenizer.lexemes_shift source.utf8ByteSize (.ofString later)
  rw [Tokenizer.shift, Tokenizer.ofString, Nat.zero_add] at hshift
  rw [lexemesOf, Tokenizer.ofString, String.toList_append]
  exact happend.trans (congrArg _ hshift)

end Calculator
