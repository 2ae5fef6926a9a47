import Calculator.Proofs.Spacing
import Calculator.Proofs.Truth

/-!
There is one way to cut a source into runs of digits, as long as they go, and other single
characters so that nothing but blanks is left over. The tokenizer finds it, and so it reads back
whatever has been laid out as a sequence of such texts with blanks around them.
-/

namespace Calculator

inductive Token.Spelt : Token → List Char → Prop where
  | number {text : List Char} : text ≠ [] → (∀ c ∈ text, c.isDigit = true) →
      Spelt (.number (Literal.value (String.ofList text))) text
  | operator (op : Operator) : Spelt (.operator op) op.symbol.toList
  | leftParen : Spelt .leftParen ['(']
  | rightParen : Spelt .rightParen [')']
  | invalid {c : Char} : c.isDigit = false → c ∉ languageChars → Spelt (.invalid c) [c]

namespace Token.Spelt

variable {t : Token} {text rest : List Char}

theorem digits_or_single (h : t.Spelt text) :
    (text ≠ [] ∧ (∀ c ∈ text, c.isDigit = true) ∧
      t = .number (Literal.value (String.ofList text))) ∨
    ∃ c, text = [c] ∧ c.isDigit = false ∧ isBlank c = false ∧ t = .ofChar c ∧
      ∀ v, t ≠ .number v := by
  cases h with
  | number hne hdigit => exact .inl ⟨hne, hdigit, rfl⟩
  | operator op => cases op <;> exact .inr ⟨_, rfl, rfl, rfl, rfl, by simp⟩
  | leftParen | rightParen => exact .inr ⟨_, rfl, rfl, rfl, rfl, by simp⟩
  | @invalid c hdigit hlanguage =>
    refine .inr ⟨c, rfl, hdigit, ?_, ?_, by simp⟩
    · rw [← Bool.not_eq_true]
      intro hblank
      simp only [isBlank, Bool.or_eq_true, beq_iff_eq] at hblank
      simp only [languageChars, List.mem_cons, List.not_mem_nil, not_or] at hlanguage
      tauto
    · unfold Token.ofChar
      split <;> simp_all [languageChars]

theorem ne_nil (h : t.Spelt text) : text ≠ [] := by
  rcases h.digits_or_single with ⟨hne, _⟩ | ⟨c, rfl, _⟩
  · exact hne
  · exact List.cons_ne_nil c []

theorem ofText_eq (h : t.Spelt text) : Token.ofText text = t := by
  rcases h.digits_or_single with ⟨hne, hdigit, rfl⟩ | ⟨c, rfl, hdigit, _, rfl, _⟩
  · obtain ⟨c, cs, rfl⟩ := List.exists_cons_of_ne_nil hne
    exact if_pos (hdigit c List.mem_cons_self)
  · simp [Token.ofText, hdigit]

theorem isBlank_eq_false (h : t.Spelt text) {c : Char} (hc : c ∈ text) : isBlank c = false := by
  rcases h.digits_or_single with ⟨_, hdigit, _⟩ | ⟨d, rfl, _, hblank, _⟩
  · rw [← Bool.not_eq_true]
    intro hblank
    have hfalse := isDigit_of_isBlank hblank
    rw [hdigit c hc] at hfalse
    cases hfalse
  · rwa [List.mem_singleton.mp hc]

theorem isDigit_of_number {v : Float} (h : (Token.number v).Spelt text) {c : Char}
    (hc : c ∈ text) : c.isDigit = true := by
  rcases h.digits_or_single with ⟨_, hdigit, _⟩ | ⟨_, _, _, _, _, hnumber⟩
  · exact hdigit c hc
  · exact absurd rfl (hnumber v)

theorem number_of_isDigit (h : t.Spelt text) {c : Char} (hc : c ∈ text)
    (hdigit : c.isDigit = true) : ∃ v, t = .number v := by
  rcases h.digits_or_single with ⟨_, _, ht⟩ | ⟨d, rfl, hfalse, _⟩
  · exact ⟨_, ht⟩
  · rw [List.mem_singleton.mp hc, hfalse] at hdigit
    cases hdigit

theorem not_joined (h : t.Spelt text)
    (hrest : (∃ v, t = .number v) → ∀ c ∈ rest.head?, c.isDigit = false) : ¬ Joined text rest := by
  rintro ⟨hlast, hfirst⟩
  obtain ⟨c, hc, hdigit⟩ := (Option.any_eq_true _ _).mp hlast
  obtain ⟨d, hd, hdigit'⟩ := (Option.any_eq_true _ _).mp hfirst
  have hfalse := hrest (h.number_of_isDigit (List.mem_of_getLast? hc) hdigit) d hd
  rw [hdigit'] at hfalse
  cases hfalse

theorem cut_eq (h : t.Spelt text)
    (hrest : (∃ v, t = .number v) → ∀ c ∈ rest.head?, c.isDigit = false) :
    cut (text ++ rest) = (text, rest) := by
  rw [cut_append_of_not_joined h.ne_nil (h.not_joined hrest)]
  rcases h.digits_or_single with ⟨hne, hdigit, _⟩ | ⟨c, rfl, hdigit, _⟩
  · obtain ⟨c, cs, rfl⟩ := List.exists_cons_of_ne_nil hne
    obtain ⟨hc, hcs⟩ := List.forall_mem_cons.mp hdigit
    have hspan := @span_append Char.isDigit cs [] hcs (by simp)
    rw [List.append_nil] at hspan
    simp [cut, hc, hspan.1, hspan.2]
  · simp [cut, hdigit]

theorem next_eq (h : t.Spelt text)
    (hrest : (∃ v, t = .number v) → ∀ c ∈ rest.head?, c.isDigit = false) (cursor : Nat)
    (latest : Option Lexeme) :
    (Tokenizer.mk (text ++ rest) cursor latest).next =
      (⟨t, cursor, String.ofList text⟩,
        ⟨rest, cursor + byteLength text, some ⟨t, cursor, String.ofList text⟩⟩) := by
  obtain ⟨c, cs, rfl⟩ := List.exists_cons_of_ne_nil h.ne_nil
  have hblank := h.isBlank_eq_false List.mem_cons_self
  have hcut := h.cut_eq hrest
  rw [List.cons_append] at hcut
  simp [Tokenizer.next, hblank, hcut, h.ofText_eq, Lexeme.stop, byteLength]

end Token.Spelt

theorem Token.spelt_ofChar {c : Char} (hdigit : c.isDigit = false) (hblank : isBlank c = false) :
    (Token.ofChar c).Spelt [c] := by
  unfold Token.ofChar
  split
  · exact .operator .add
  · exact .operator .sub
  · exact .operator .mul
  · exact .operator .div
  · exact .leftParen
  · exact .rightParen
  · refine .invalid hdigit ?_
    simp_all [languageChars, isBlank]

theorem spelt_cut {c : Char} {cs : List Char} (h : isBlank c = false) :
    (Token.ofText (cut (c :: cs)).1).Spelt (cut (c :: cs)).1 := by
  by_cases hdigit : c.isDigit = true
  · simp only [cut, hdigit, if_true, Token.ofText]
    refine .number (List.cons_ne_nil _ _) fun d hd => ?_
    rcases List.mem_cons.mp hd with rfl | hd
    · exact hdigit
    · exact List.mem_takeWhile_imp hd
  · rw [Bool.not_eq_true] at hdigit
    simpa [cut, hdigit, Token.ofText] using Token.spelt_ofChar hdigit h

theorem isDigit_head_cut {c : Char} {cs : List Char}
    (h : ∃ v, Token.ofText (cut (c :: cs)).1 = .number v) :
    ∀ d ∈ (cut (c :: cs)).2.head?, d.isDigit = false := by
  by_cases hdigit : c.isDigit = true
  · simp only [cut, hdigit, if_true]
    intro d hd
    have hnot := List.head?_dropWhile_not Char.isDigit cs
    rwa [hd] at hnot
  · rw [Bool.not_eq_true] at hdigit
    obtain ⟨v, hv⟩ := h
    simp only [cut, hdigit, Bool.false_eq_true, if_false, Token.ofText, Token.ofChar] at hv
    split at hv <;> cases hv

/-- From the byte `offset` on, the characters are the texts of these lexemes with blanks around
them, and no digit follows a number at once. -/
inductive LaidOut : Nat → List Char → List Lexeme → Prop where
  | blanks {offset : Nat} {cs : List Char} : (∀ c ∈ cs, isBlank c = true) → LaidOut offset cs []
  | lexeme {offset : Nat} {blanks text rest : List Char} {t : Token} {ls : List Lexeme} :
      (∀ c ∈ blanks, isBlank c = true) → t.Spelt text →
      ((∃ v, t = .number v) → ∀ c ∈ rest.head?, c.isDigit = false) →
      LaidOut (offset + byteLength blanks + byteLength text) rest ls →
      LaidOut offset (blanks ++ (text ++ rest))
        (⟨t, offset + byteLength blanks, String.ofList text⟩ :: ls)

namespace LaidOut

variable {offset : Nat} {cs : List Char} {l : Lexeme} {ls : List Lexeme}

theorem lexemes_eq (h : LaidOut offset cs ls) (latest : Option Lexeme) :
    (Tokenizer.mk cs offset latest).lexemes = ls := by
  induction h generalizing latest with
  | blanks hblank =>
    apply Tokenizer.lexemes_of_isEnd
    rw [Tokenizer.next_isEnd, List.isEmpty_iff]
    exact List.dropWhile_eq_nil_iff.mpr hblank
  | @lexeme offset blanks text rest t ls hblank ht hrest _ ih =>
    have hnext := Tokenizer.next_skip hblank (text ++ rest) offset latest none
    rw [ht.next_eq hrest] at hnext
    have hend : t.isEnd = false := by
      rw [← ht.ofText_eq, Token.isEnd_ofText]
      simpa using ht.ne_nil
    rw [Tokenizer.lexemes_of_not_isEnd (by rw [hnext]; exact hend), hnext, ih]

end LaidOut

namespace Tokenizer

theorem next_spelt {t : Tokenizer} (h : t.next.1.isEnd = false) :
    ∃ blanks text, t.ahead = blanks ++ (text ++ t.next.2.ahead) ∧
      t.next.1 = ⟨t.next.1.token, t.cursor + byteLength blanks, String.ofList text⟩ ∧
      (∀ c ∈ blanks, isBlank c = true) ∧ t.next.1.token.Spelt text ∧
      ((∃ v, t.next.1.token = .number v) → ∀ c ∈ t.next.2.ahead.head?, c.isDigit = false) := by
  have hne : t.ahead.dropWhile isBlank ≠ [] := by
    intro hnil
    rw [next_isEnd, hnil] at h
    cases h
  have hblank := List.head_dropWhile_not isBlank hne
  have hahead := t.next_text_append
  obtain ⟨c, cs, hcs⟩ := List.exists_cons_of_ne_nil hne
  simp only [hcs, List.head_cons] at hblank
  refine ⟨t.ahead.takeWhile isBlank, t.next.1.text.toList, hahead.symm, ?_,
    fun _ => List.mem_takeWhile_imp, ?_, ?_⟩
  · rw [String.ofList_toList, ← next_start]
  · simp only [next, hcs, String.toList_ofList]
    exact spelt_cut hblank
  · simp only [next, hcs]
    exact isDigit_head_cut

theorem laidOut (t : Tokenizer) : LaidOut t.cursor t.ahead t.lexemes := by
  induction t using lexemes.induct with
  | case1 t he =>
    rw [lexemes_of_isEnd he]
    rw [next_isEnd, List.isEmpty_iff] at he
    exact .blanks (List.dropWhile_eq_nil_iff.mp he)
  | case2 t he ih =>
    rw [Bool.not_eq_true] at he
    obtain ⟨blanks, text, hahead, hl, hblank, hspelt, hrest⟩ := next_spelt he
    rw [next_cursor, hl, Lexeme.stop] at ih
    rw [lexemes_of_not_isEnd he, hl, hahead]
    exact .lexeme hblank hspelt hrest ih

end Tokenizer

theorem laidOut_iff {source : String} {ls : List Lexeme} :
    LaidOut 0 source.toList ls ↔ ls = lexemesOf source := by
  constructor
  · intro h
    exact (h.lexemes_eq none).symm
  · rintro rfl
    exact Tokenizer.laidOut (.ofString source)

theorem exists_laidOut {ts : List Token} (h : ∀ t ∈ ts, ∃ text, t.Spelt text) (offset : Nat) :
    ∃ cs ls, LaidOut offset cs ls ∧ ls.map Lexeme.token = ts ∧
      ∀ c ∈ cs.head?, c.isDigit = false := by
  induction ts generalizing offset with
  | nil => exact ⟨[], [], .blanks (by simp), rfl, by simp⟩
  | cons t ts ih =>
    obtain ⟨⟨text, ht⟩, hts⟩ := List.forall_mem_cons.mp h
    obtain ⟨cs, ls, hls, htokens, hfirst⟩ :=
      ih hts (offset + byteLength [' '] + byteLength text)
    refine ⟨[' '] ++ (text ++ cs), _, .lexeme (by simp [isBlank]) ht (fun _ => hfirst) hls, ?_, ?_⟩
    · rw [List.map_cons, htokens]
    · simp

theorem exists_tokensOf {ts : List Token} (h : ∀ t ∈ ts, ∃ text, t.Spelt text) :
    ∃ source, tokensOf source = ts := by
  obtain ⟨cs, ls, hls, htokens, _⟩ := exists_laidOut h 0
  refine ⟨String.ofList cs, ?_⟩
  rw [tokensOf, ← laidOut_iff.mp (by rwa [String.toList_ofList]), htokens]

def Lexeme.StandsIn (l : Lexeme) (source : String) : Prop :=
  l.token.Spelt l.text.toList ∧
    ∃ before after, source.toList = before ++ (l.text.toList ++ after) ∧
      byteLength before = l.start ∧
      ((∃ v, l.token = .number v) →
        (∀ c ∈ before.getLast?, c.isDigit = false) ∧ ∀ c ∈ after.head?, c.isDigit = false)

def Lexeme.Covers (l : Lexeme) (offset : Nat) : Prop :=
  l.start ≤ offset ∧ offset < l.stop

structure Tokenization (source : String) (ls : List Lexeme) : Prop where
  stands : ∀ l ∈ ls, l.StandsIn source
  start_lt_stop : ∀ l ∈ ls, l.start < l.stop
  ordered : ls.Pairwise fun l m => l.stop ≤ m.start
  isBlank_iff : ∀ offset c, CharAt source offset c →
    (isBlank c = true ↔ ∀ l ∈ ls, ¬ l.Covers offset)

namespace LaidOut

variable {offset : Nat} {cs : List Char} {l : Lexeme} {ls : List Lexeme}

theorem mem (h : LaidOut offset cs ls) (hl : l ∈ ls) :
    l.token.Spelt l.text.toList ∧
      ∃ before after, cs = before ++ (l.text.toList ++ after) ∧
        offset + byteLength before = l.start ∧
        ((∃ v, l.token = .number v) →
          (∀ c ∈ before.getLast?, c.isDigit = false) ∧ ∀ c ∈ after.head?, c.isDigit = false) := by
  induction h with
  | blanks => cases hl
  | @lexeme offset blanks text rest t ls hblank ht hrest _ ih =>
    rcases List.mem_cons.mp hl with rfl | hl
    · rw [String.toList_ofList]
      refine ⟨ht, blanks, rest, rfl, rfl, fun hv => ⟨fun c hc => ?_, hrest hv⟩⟩
      exact isDigit_of_isBlank (hblank c (List.mem_of_getLast? hc))
    · obtain ⟨hspelt, before, after, hr, hstart, hnumber⟩ := ih hl
      refine ⟨hspelt, blanks ++ text ++ before, after, by simp [hr], ?_, fun hv => ?_⟩
      · rw [byteLength_append, byteLength_append]
        omega
      · obtain ⟨hlast, hfirst⟩ := hnumber hv
        refine ⟨fun c hc => ?_, hfirst⟩
        rw [List.getLast?_append] at hc
        cases hb : before.getLast? with
        | some d =>
          rw [hb, Option.some_or, Option.mem_some] at hc
          rw [← hc]
          exact hlast d hb
        | none =>
          obtain rfl := List.getLast?_eq_none_iff.mp hb
          rw [hb, Option.none_or, List.getLast?_append_of_ne_nil _ ht.ne_nil] at hc
          obtain ⟨v, hv⟩ := hv
          obtain ⟨d, ds, hds⟩ := List.exists_cons_of_ne_nil hspelt.ne_nil
          have hd : d.isDigit = true := by
            rw [hv] at hspelt
            exact hspelt.isDigit_of_number (by simp [hds])
          rw [← Bool.not_eq_true]
          intro hdigit
          have hfalse := hrest (ht.number_of_isDigit (List.mem_of_getLast? hc) hdigit) d
            (by simp [hr, hds])
          rw [hd] at hfalse
          cases hfalse

theorem le_start (h : LaidOut offset cs ls) (hl : l ∈ ls) : offset ≤ l.start := by
  obtain ⟨_, _, _, _, hstart, _⟩ := h.mem hl
  omega

theorem ordered (h : LaidOut offset cs ls) : ls.Pairwise fun l m => l.stop ≤ m.start := by
  induction h with
  | blanks => exact .nil
  | lexeme _ _ _ hls ih => exact List.pairwise_cons.mpr ⟨fun m hm => hls.le_start hm, ih⟩

theorem isBlank_iff (h : LaidOut offset cs ls) {before after : List Char} {c : Char}
    (hcs : cs = before ++ c :: after) :
    isBlank c = true ↔ ∀ l ∈ ls, ¬ l.Covers (offset + byteLength before) := by
  induction h generalizing before with
  | blanks hblank =>
    have hc := hblank c (by simp [hcs])
    simp [hc]
  | @lexeme offset blanks text rest t ls hblank ht _ hls ih =>
    have hpos := byteLength_pos (List.cons_ne_nil c [])
    rw [List.forall_mem_cons]
    simp only [Lexeme.Covers, Lexeme.stop] at ih ⊢
    rcases append_eq_append_cons hcs with ⟨mid, hmid, _⟩ | ⟨mid, rfl, hmid⟩
    · have hlength := congrArg byteLength hmid
      rw [List.append_cons, byteLength_append, byteLength_append] at hlength
      refine iff_of_true (hblank c (by simp [hmid])) ⟨by omega, fun l hl => ?_⟩
      have hle := hls.le_start hl
      omega
    · rcases append_eq_append_cons hmid with ⟨mid', hmid', _⟩ | ⟨mid', rfl, hrest⟩
      · have hlength := congrArg byteLength hmid'
        rw [List.append_cons, byteLength_append, byteLength_append] at hlength
        have hc := ht.isBlank_eq_false (c := c) (by simp [hmid'])
        rw [hc, byteLength_append]
        refine iff_of_false Bool.false_ne_true fun hnone => hnone.1 ⟨by omega, ?_⟩
        rw [← byteLength]
        omega
      · rw [ih hrest, byteLength_append, byteLength_append, ← byteLength]
        have hsame : offset + (byteLength blanks + (byteLength text + byteLength mid')) =
            offset + byteLength blanks + byteLength text + byteLength mid' := by
          omega
        rw [hsame]
        constructor
        · exact fun hnone => ⟨by omega, hnone⟩
        · exact fun hnone => hnone.2

theorem tokenization {source : String} (h : LaidOut 0 source.toList ls) :
    Tokenization source ls where
  stands l hl := by
    obtain ⟨hspelt, before, after, hsource, hstart, hnumber⟩ := h.mem hl
    rw [Nat.zero_add] at hstart
    exact ⟨hspelt, before, after, hsource, hstart, hnumber⟩
  start_lt_stop l hl := by
    have hpos := byteLength_pos (h.mem hl).1.ne_nil
    rw [byteLength_toList] at hpos
    exact Nat.lt_add_of_pos_right hpos
  ordered := h.ordered
  isBlank_iff := by
    rintro _ c ⟨before, after, hsource, rfl⟩
    rw [h.isBlank_iff hsource, Nat.zero_add]

end LaidOut

theorem exists_spelt {source : String} {l : Lexeme} (h : l ∈ lexemesOf source) :
    ∃ text, l.token.Spelt text := by
  have hlaid : LaidOut 0 source.toList (lexemesOf source) := laidOut_iff.mpr rfl
  exact ⟨_, (hlaid.mem h).1⟩

theorem Token.spelt_zero : (Token.number 0).Spelt ['0'] := by
  have hzero : Literal.value (String.ofList ['0']) = 0 := by decide +kernel
  rw [← hzero]
  exact .number (by simp) (by simp)

theorem exists_gap {read cs before after : List Char} (h : read ++ cs = before ++ after)
    (hle : byteLength read ≤ byteLength before) :
    ∃ gap, before = read ++ gap ∧ cs = gap ++ after := by
  rcases List.append_eq_append_iff.mp h with hgap | ⟨more, rfl, rfl⟩
  · exact hgap
  · rw [byteLength_append] at hle
    have hnil : more = [] := by
      by_contra hne
      have hpos := byteLength_pos hne
      omega
    exact ⟨[], by simp [hnil], by simp [hnil]⟩

theorem laidOut_of_stands {source : String} {ls : List Lexeme} {read cs : List Char}
    (hsource : source.toList = read ++ cs) (hstart : ∀ l ∈ ls, byteLength read ≤ l.start)
    (hstands : ∀ l ∈ ls, l.StandsIn source) (hordered : ls.Pairwise fun l m => l.stop ≤ m.start)
    (hblank : ∀ before c after, cs = before ++ c :: after →
      (∀ l ∈ ls, ¬ l.Covers (byteLength read + byteLength before)) → isBlank c = true) :
    LaidOut (byteLength read) cs ls := by
  -- `read` grows by a lexeme and the blanks before it, and `cs` is what is left of the source.
  induction ls generalizing read cs with
  | nil =>
    refine .blanks fun c hc => ?_
    obtain ⟨before, after, hcs⟩ := List.append_of_mem hc
    exact hblank before c after hcs (by simp)
  | cons l ls ih =>
    obtain ⟨hspelt, before, after, hl, hbefore, hnumber⟩ := hstands l List.mem_cons_self
    obtain ⟨hlater, hordered⟩ := List.pairwise_cons.mp hordered
    have hle := hstart l List.mem_cons_self
    rw [← hbefore] at hle
    obtain ⟨gap, rfl, rfl⟩ := exists_gap (hsource.symm.trans hl) hle
    rw [byteLength_append] at hbefore
    have hstop : l.stop = byteLength (read ++ gap ++ l.text.toList) := by
      rw [byteLength_append, byteLength_append, byteLength_toList, hbefore, Lexeme.stop]
    have hself : l :: ls =
        ⟨l.token, byteLength read + byteLength gap, String.ofList l.text.toList⟩ :: ls := by
      rw [hbefore, String.ofList_toList]
    rw [hself]
    refine .lexeme (fun c hc => ?_) hspelt (fun hv => (hnumber hv).2) ?_
    · obtain ⟨front, back, rfl⟩ := List.append_of_mem hc
      have hpos := byteLength_pos (List.cons_ne_nil c back)
      rw [byteLength_append] at hbefore
      refine hblank front c (back ++ (l.text.toList ++ after)) (by simp) fun m hm => ?_
      simp only [Lexeme.Covers]
      rcases List.mem_cons.mp hm with rfl | hm
      · omega
      · have hmstart := hlater m hm
        have hlstop := l.start_le_stop
        omega
    · rw [← byteLength_append, ← byteLength_append]
      refine ih (by simp [hl]) ?_ (fun m hm => hstands m (List.mem_cons_of_mem l hm)) hordered ?_
      · intro m hm
        rw [← hstop]
        exact hlater m hm
      · intro front c back hfront hnone
        refine hblank (gap ++ l.text.toList ++ front) c back (by simp [hfront]) fun m hm => ?_
        have hsame : byteLength read + byteLength (gap ++ l.text.toList ++ front) =
            l.stop + byteLength front := by
          simp only [hstop, byteLength_append]
          omega
        rw [hsame]
        rcases List.mem_cons.mp hm with rfl | hm
        · exact fun hcovers => absurd hcovers.2 (by omega)
        · rw [hstop]
          exact hnone m hm

theorem Tokenization.laidOut {source : String} {ls : List Lexeme} (h : Tokenization source ls) :
    LaidOut 0 source.toList ls := by
  refine @laidOut_of_stands source ls [] _ rfl (fun _ _ => Nat.zero_le _) h.stands h.ordered ?_
  intro before c after hsource hnone
  rw [byteLength_nil, Nat.zero_add] at hnone
  exact (h.isBlank_iff _ c ⟨before, after, hsource, rfl⟩).mpr hnone

theorem tokenization_unique (source : String) :
    (∀ ls, Tokenization source ls ↔ ls = lexemesOf source) ∧
    (∀ n, let pull := ((Tokenizer.ofString source).after n).next
      pull.1 = lookahead source.utf8ByteSize ((lexemesOf source).drop n) ∧
        pull.2.span = (pull.1.start, pull.1.stop) ∧ pull.2.text = pull.1.text) ∧
    ∀ ls, LaidOut 0 source.toList ls ↔ ls = lexemesOf source := by
  refine ⟨fun ls => ?_, fun n => ⟨?_, rfl, rfl⟩, fun ls => laidOut_iff⟩
  · rw [← laidOut_iff]
    exact ⟨Tokenization.laidOut, LaidOut.tokenization⟩
  · rw [Tokenizer.next_fst, Tokenizer.after_finish, Tokenizer.after_lexemes,
      Tokenizer.finish_ofString]
    rfl

end Calculator
