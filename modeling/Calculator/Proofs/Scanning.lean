import Calculator.Tokenizer

namespace Calculator

def byteLength (cs : List Char) : Nat :=
  (String.ofList cs).utf8ByteSize

@[simp]
theorem byteLength_nil : byteLength [] = 0 := rfl

@[simp]
theorem byteLength_append (cs ds : List Char) :
    byteLength (cs ++ ds) = byteLength cs + byteLength ds := by
  rw [byteLength, String.ofList_append, String.utf8ByteSize_append]
  rfl

theorem byteLength_toList (text : String) : byteLength text.toList = text.utf8ByteSize := by
  rw [byteLength, String.ofList_toList]

theorem byteLength_pos {cs : List Char} (h : cs ≠ []) : 0 < byteLength cs := by
  refine Nat.pos_of_ne_zero fun h0 => h ?_
  rw [byteLength, String.utf8ByteSize_eq_zero_iff] at h0
  exact String.ofList_eq_empty_iff.mp h0

/-- The first of the lexemes, or the end of an input that ends at `stop`. -/
def lookahead (stop : Nat) (ls : List Lexeme) : Lexeme :=
  ls.headD ⟨.endOfInput, stop, ""⟩

@[simp]
theorem lookahead_nil (stop : Nat) : lookahead stop [] = ⟨.endOfInput, stop, ""⟩ := rfl

@[simp]
theorem lookahead_cons (stop : Nat) (l : Lexeme) (ls : List Lexeme) :
    lookahead stop (l :: ls) = l := rfl

def starts (stop : Nat) (ls : List Lexeme) : List Nat :=
  ls.map Lexeme.start ++ [stop]

@[simp]
theorem starts_nil (stop : Nat) : starts stop [] = [stop] := rfl

@[simp]
theorem starts_cons (stop : Nat) (l : Lexeme) (ls : List Lexeme) :
    starts stop (l :: ls) = l.start :: starts stop ls := rfl

theorem lookahead_start_mem (stop : Nat) (ls : List Lexeme) :
    (lookahead stop ls).start ∈ starts stop ls := by
  cases ls <;> simp

theorem mem_starts {stop offset : Nat} {ls : List Lexeme} :
    offset ∈ starts stop ls ↔ (∃ l ∈ ls, l.start = offset) ∨ offset = stop := by
  simp [starts]

theorem starts_subset_of_suffix {stop : Nat} {ls rs : List Lexeme} (h : rs <:+ ls) :
    starts stop rs ⊆ starts stop ls := by
  intro offset ho
  rw [mem_starts] at ho ⊢
  rcases ho with ⟨l, hl, rfl⟩ | rfl
  · exact .inl ⟨l, h.subset hl, rfl⟩
  · exact .inr rfl

theorem pairwise_starts_of_suffix {stop : Nat} {ls rs : List Lexeme} (h : rs <:+ ls)
    (hls : (starts stop ls).Pairwise (· < ·)) : (starts stop rs).Pairwise (· < ·) :=
  hls.sublist ((h.sublist.map _).append_right _)

theorem Lexeme.token_ne_endOfInput {l : Lexeme} (h : l.isEnd = false) :
    l.token ≠ .endOfInput := by
  intro he
  simp [isEnd, he, Token.isEnd] at h

theorem lookahead_isEnd {stop : Nat} {ls : List Lexeme} (hls : ∀ l ∈ ls, l.isEnd = false)
    (h : (lookahead stop ls).token = .endOfInput) : ls = [] := by
  cases ls with
  | nil => rfl
  | cons l ls => exact absurd h (Lexeme.token_ne_endOfInput (hls l List.mem_cons_self))

theorem exists_cons_of_lookahead {stop : Nat} {ls : List Lexeme}
    (h : (lookahead stop ls).token ≠ .endOfInput) : ∃ l rs, ls = l :: rs := by
  cases ls with
  | nil => exact absurd rfl h
  | cons l rs => exact ⟨l, rs, rfl⟩

namespace Tokenizer

def finish (t : Tokenizer) : Nat :=
  t.cursor + byteLength t.ahead

theorem finish_ofString (source : String) : (ofString source).finish = source.utf8ByteSize := by
  simp [finish, ofString, byteLength]

theorem next_of_isEnd {t : Tokenizer} (h : t.next.1.isEnd = true) :
    t.next.1 = ⟨.endOfInput, t.finish, ""⟩ ∧ t.next.2.ahead = [] := by
  have hd : t.ahead.dropWhile isBlank = [] := by
    rwa [next_isEnd, List.isEmpty_iff] at h
  have hb : t.ahead.takeWhile isBlank = t.ahead := by
    have := List.takeWhile_append_dropWhile (p := isBlank) (l := t.ahead)
    rwa [hd, List.append_nil] at this
  simp [next, hd, hb, cut, Token.ofText, finish, byteLength]

theorem next_of_not_isEnd {t : Tokenizer} (h : t.next.1.isEnd = false) :
    ∃ blanks c cs, t.ahead = blanks ++ (c :: cs ++ t.next.2.ahead) ∧ isBlank c = false ∧
      t.next.1 = ⟨.ofText (c :: cs), t.cursor + byteLength blanks, String.ofList (c :: cs)⟩ := by
  have hne : t.ahead.dropWhile isBlank ≠ [] := by
    intro he
    rw [next_isEnd, he] at h
    cases h
  have hblank := List.head_dropWhile_not isBlank hne
  obtain ⟨c, cs, hcs⟩ := List.exists_cons_of_ne_nil hne
  simp only [hcs, List.head_cons] at hblank
  obtain ⟨ds, hds⟩ : ∃ ds, (cut (c :: cs)).1 = c :: ds := by
    simp only [cut]
    split <;> exact ⟨_, rfl⟩
  have hahead := t.next_text_append
  simp only [next, hcs, hds, String.toList_ofList] at hahead ⊢
  exact ⟨_, c, ds, hahead.symm, hblank, rfl⟩

theorem next_start (t : Tokenizer) :
    t.next.1.start = t.cursor + byteLength (t.ahead.takeWhile isBlank) := rfl

theorem next_finish (t : Tokenizer) : t.next.2.finish = t.finish := by
  have h := congrArg byteLength t.next_text_append
  simp only [byteLength_append, byteLength_toList] at h
  have hstart := t.next_start
  rw [finish, finish, next_cursor, Lexeme.stop]
  omega

theorem lexemes_of_isEnd {t : Tokenizer} (h : t.next.1.isEnd = true) : t.lexemes = [] := by
  rw [lexemes, dif_pos h]

theorem lexemes_of_not_isEnd {t : Tokenizer} (h : t.next.1.isEnd = false) :
    t.lexemes = t.next.1 :: t.next.2.lexemes := by
  rw [lexemes, dif_neg (by simp [h])]

theorem lexemes_of_ahead {t : Tokenizer} (h : t.ahead = []) : t.lexemes = [] := by
  apply lexemes_of_isEnd
  rw [next_isEnd, h]
  rfl

theorem next_fst (t : Tokenizer) : t.next.1 = lookahead t.finish t.lexemes := by
  cases h : t.next.1.isEnd with
  | true => rw [(next_of_isEnd h).1, lexemes_of_isEnd h, lookahead_nil]
  | false => rw [lexemes_of_not_isEnd h, lookahead_cons]

theorem next_lexemes (t : Tokenizer) : t.next.2.lexemes = t.lexemes.tail := by
  cases h : t.next.1.isEnd with
  | true => rw [lexemes_of_isEnd h, lexemes_of_ahead (next_of_isEnd h).2, List.tail_nil]
  | false => rw [lexemes_of_not_isEnd h, List.tail_cons]

def after (t : Tokenizer) : Nat → Tokenizer
  | 0 => t
  | n + 1 => t.next.2.after n

@[simp]
theorem after_zero (t : Tokenizer) : t.after 0 = t := rfl

theorem after_succ (t : Tokenizer) (n : Nat) : t.after (n + 1) = t.next.2.after n := rfl

theorem after_after (t : Tokenizer) (m n : Nat) : (t.after m).after n = t.after (m + n) := by
  induction m generalizing t with
  | zero => rw [after_zero, Nat.zero_add]
  | succ m ih => rw [after_succ, ih, Nat.succ_add, after_succ]

theorem after_finish (t : Tokenizer) (n : Nat) : (t.after n).finish = t.finish := by
  induction n generalizing t with
  | zero => rfl
  | succ n ih => rw [after_succ, ih, next_finish]

theorem after_lexemes (t : Tokenizer) (n : Nat) : (t.after n).lexemes = t.lexemes.drop n := by
  induction n generalizing t with
  | zero => rfl
  | succ n ih => rw [after_succ, ih, next_lexemes, List.drop_tail]

theorem after_ahead (t : Tokenizer) (n : Nat) :
    ∃ read, t.ahead = read ++ (t.after n).ahead ∧
      (t.after n).cursor = t.cursor + byteLength read := by
  induction n generalizing t with
  | zero => exact ⟨[], rfl, rfl⟩
  | succ n ih =>
    obtain ⟨read, hahead, hcursor⟩ := ih t.next.2
    refine ⟨t.ahead.takeWhile isBlank ++ t.next.1.text.toList ++ read, ?_, ?_⟩
    · have hnext := t.next_text_append
      rw [hahead] at hnext
      rw [after_succ, List.append_assoc, List.append_assoc, hnext]
    · rw [after_succ, hcursor, next_cursor, Lexeme.stop, next_start, byteLength_append,
        byteLength_append, byteLength_toList, Nat.add_assoc, Nat.add_assoc, Nat.add_assoc]

theorem mem_lexemes_isEnd {t : Tokenizer} {l : Lexeme} (h : l ∈ t.lexemes) : l.isEnd = false := by
  induction t using lexemes.induct with
  | case1 t he =>
    rw [lexemes_of_isEnd he] at h
    cases h
  | case2 t he ih =>
    rw [Bool.not_eq_true] at he
    rw [lexemes_of_not_isEnd he] at h
    rcases List.mem_cons.mp h with rfl | h
    · exact he
    · exact ih h

theorem mem_lexemes {t : Tokenizer} {l : Lexeme} (h : l ∈ t.lexemes) :
    ∃ before c cs after, t.ahead = before ++ (c :: cs ++ after) ∧ isBlank c = false ∧
      l = ⟨.ofText (c :: cs), t.cursor + byteLength before, String.ofList (c :: cs)⟩ := by
  induction t using lexemes.induct with
  | case1 t he =>
    rw [lexemes_of_isEnd he] at h
    cases h
  | case2 t he ih =>
    rw [Bool.not_eq_true] at he
    rw [lexemes_of_not_isEnd he] at h
    obtain ⟨blanks, c, cs, hahead, hblank, hl⟩ := next_of_not_isEnd he
    rcases List.mem_cons.mp h with rfl | h
    · exact ⟨blanks, c, cs, _, hahead, hblank, hl⟩
    · obtain ⟨before, d, ds, after, hnext, hd, rfl⟩ := ih h
      refine ⟨blanks ++ (c :: cs) ++ before, d, ds, after, ?_, hd, ?_⟩
      · rw [hahead, hnext]
        simp
      · simp only [next_cursor, Lexeme.stop, hl, byteLength_append, Lexeme.mk.injEq, true_and,
          and_true]
        simp only [byteLength]
        omega

theorem cursor_le_of_mem_starts {t : Tokenizer} {offset : Nat}
    (h : offset ∈ starts t.finish t.lexemes) : t.cursor ≤ offset := by
  rcases mem_starts.mp h with ⟨l, hl, rfl⟩ | rfl
  · obtain ⟨_, _, _, _, _, _, rfl⟩ := mem_lexemes hl
    exact Nat.le_add_right _ _
  · exact Nat.le_add_right _ _

theorem pairwise_starts (t : Tokenizer) : (starts t.finish t.lexemes).Pairwise (· < ·) := by
  induction t using lexemes.induct with
  | case1 t he => simp [lexemes_of_isEnd he]
  | case2 t he ih =>
    rw [Bool.not_eq_true] at he
    rw [next_finish] at ih
    rw [lexemes_of_not_isEnd he, starts_cons, List.pairwise_cons]
    refine ⟨fun offset ho => ?_, ih⟩
    rw [← next_finish] at ho
    have hcursor := cursor_le_of_mem_starts ho
    obtain ⟨_, c, cs, _, _, hl⟩ := next_of_not_isEnd he
    have hpos := byteLength_pos (List.cons_ne_nil c cs)
    rw [next_cursor, hl] at hcursor
    rw [hl]
    simp only [Lexeme.stop] at hcursor ⊢
    exact Nat.lt_of_lt_of_le (Nat.lt_add_of_pos_right hpos) hcursor

end Tokenizer

def lexemesOf (source : String) : List Lexeme :=
  (Tokenizer.ofString source).lexemes

theorem mem_lexemesOf_isEnd {source : String} {l : Lexeme} (h : l ∈ lexemesOf source) :
    l.isEnd = false :=
  Tokenizer.mem_lexemes_isEnd h

theorem pairwise_lexemesOf (source : String) :
    (starts source.utf8ByteSize (lexemesOf source)).Pairwise (· < ·) := by
  rw [← Tokenizer.finish_ofString]
  exact Tokenizer.pairwise_starts _

end Calculator
