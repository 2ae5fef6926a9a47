import Calculator.Proofs.History
import Calculator.Proofs.Reports

namespace Calculator

def TokenAt (source : String) (offset : Nat) (p : Token → Prop) : Prop :=
  ∃ l ∈ lexemesOf source, l.start = offset ∧ p l.token

def CharAt (source : String) (offset : Nat) (c : Char) : Prop :=
  ∃ before after, source.toList = before ++ c :: after ∧ byteLength before = offset

def languageChars : List Char :=
  ['+', '-', '*', '/', '(', ')', ' ', '\t', '\n', '\r']

def Diagnostic.Truthful (source : String) : Diagnostic → Prop
  | unexpectedToken found offset => TokenAt source offset fun t =>
      found = t.describe ∧ (t = .rightParen ∨ ∃ op, t = .operator op)
  | unexpectedEnd offset => offset = source.utf8ByteSize
  | invalidCharacter character offset =>
      TokenAt source offset (· = .invalid character) ∧ CharAt source offset character ∧
        character.isDigit = false ∧ character ∉ languageChars
  | unterminatedGroup opened offset =>
      opened < offset ∧ TokenAt source opened (· = .leftParen) ∧
        (offset = source.utf8ByteSize ∨ TokenAt source offset fun t =>
          (∃ v, t = .number v) ∨ t = .leftParen ∨ ∃ c, t = .invalid c)
  | nestingTooDeep limit offset => limit = maxDepth ∧ TokenAt source offset (· = .leftParen)
  | trailingToken found offset => TokenAt source offset fun t =>
      found = t.describe ∧ ((∃ v, t = .number v) ∨ t = .leftParen ∨ t = .rightParen)

theorem TokenAt.mem_starts {source : String} {offset : Nat} {p : Token → Prop}
    (h : TokenAt source offset p) : offset ∈ starts source.utf8ByteSize (lexemesOf source) := by
  obtain ⟨l, hl, ho, _⟩ := h
  exact Calculator.mem_starts.mpr (.inl ⟨l, hl, ho⟩)

theorem Diagnostic.Truthful.offset_mem_starts {source : String} {d : Diagnostic}
    (h : d.Truthful source) : d.offset ∈ starts source.utf8ByteSize (lexemesOf source) := by
  cases d with
  | unexpectedToken | trailingToken =>
    rw [Truthful] at h
    exact h.mem_starts
  | unexpectedEnd => exact mem_starts.mpr (.inr h)
  | invalidCharacter => exact h.1.mem_starts
  | unterminatedGroup =>
    rcases h.2.2 with he | ht
    · exact mem_starts.mpr (.inr he)
    · exact ht.mem_starts
  | nestingTooDeep => exact h.2.mem_starts

theorem describe_ne {t : Token} (hend : t ≠ .endOfInput) (hinvalid : ∀ c, t ≠ .invalid c) :
    t.describe ≠ "end of input" ∧ t.describe ≠ "invalid character" := by
  cases t with
  | number v =>
    constructor <;>
    · intro h
      have := congrArg (fun s => s.toList.head?) h
      simp [Token.describe] at this
  | operator op => cases op <;> simp [Token.describe, Operator.symbol]
  | leftParen | rightParen => simp [Token.describe]
  | endOfInput => exact absurd rfl hend
  | invalid c => exact absurd rfl (hinvalid c)

theorem charAt_of_mem {source : String} {l : Lexeme} (h : l ∈ lexemesOf source) :
    ∃ c cs, CharAt source l.start c ∧ isBlank c = false ∧ l.token = .ofText (c :: cs) := by
  obtain ⟨before, c, cs, after, hsource, hblank, rfl⟩ := Tokenizer.mem_lexemes h
  refine ⟨c, cs, ⟨before, cs ++ after, ?_, ?_⟩, hblank, rfl⟩
  · rw [List.cons_append] at hsource
    exact hsource
  · exact (Nat.zero_add _).symm

theorem ofText_eq_invalid {c character : Char} {cs : List Char} (hblank : isBlank c = false)
    (h : Token.ofText (c :: cs) = .invalid character) :
    character = c ∧ c.isDigit = false ∧ c ∉ languageChars := by
  rw [Token.ofText] at h
  split at h
  · cases h
  · rename_i hdigit
    unfold Token.ofChar at h
    split at h <;> simp_all [languageChars, isBlank]

def Config.Grounded (c : Config) (source : String) (ls : List Lexeme) : Prop :=
  ∀ group ∈ c.groups, TokenAt source group.opened (· = .leftParen) ∧
    ∀ offset ∈ starts source.utf8ByteSize ls, group.opened < offset

theorem Config.grounded_initial (source : String) (ls : List Lexeme) :
    Config.initial.Grounded source ls := by
  intro group hg
  cases hg

theorem Config.Consumes.grounded {source : String} {c d : Config} {ls : List Lexeme}
    {events : List Event} (h : c.Consumes (lookahead source.utf8ByteSize ls) events d)
    (hls : ls <:+ lexemesOf source) (hc : c.Grounded source ls) : d.Grounded source ls.tail := by
  have older : ∀ group ∈ c.groups, TokenAt source group.opened (· = .leftParen) ∧
      ∀ offset ∈ starts source.utf8ByteSize ls.tail, group.opened < offset := by
    intro group hg
    obtain ⟨hopened, hbefore⟩ := hc group hg
    refine ⟨hopened, fun offset ho => ?_⟩
    exact hbefore offset (starts_subset_of_suffix (List.tail_suffix ls) ho)
  cases h with
  | opening _ hl _ =>
    obtain ⟨l, rs, rfl⟩ := exists_cons_of_lookahead (by rw [hl]; simp)
    have hsorted := pairwise_starts_of_suffix hls (pairwise_lexemesOf source)
    rw [starts_cons, List.pairwise_cons] at hsorted
    intro group hg
    rcases List.mem_cons.mp hg with rfl | hg
    · exact ⟨⟨l, hls.subset List.mem_cons_self, rfl, hl⟩, hsorted.1⟩
    · exact older group hg
  | closed _ hgroups _ | unclosed _ hgroups _ _ =>
    intro group hg
    apply older
    rw [hgroups]
    exact List.mem_cons_of_mem _ hg
  | _ => exact older

theorem Diagnostic.Fits.truthful {source : String} {c : Config} {ls : List Lexeme}
    {d : Diagnostic} (h : d.Fits c (lookahead source.utf8ByteSize ls))
    (hls : ls <:+ lexemesOf source) (hc : c.Grounded source ls) : d.Truthful source := by
  have there {p : Token → Prop} (hp : p (lookahead source.utf8ByteSize ls).token)
      (hne : (lookahead source.utf8ByteSize ls).token ≠ .endOfInput) :
      TokenAt source (lookahead source.utf8ByteSize ls).start p := by
    obtain ⟨l, rs, rfl⟩ := exists_cons_of_lookahead hne
    exact ⟨l, hls.subset List.mem_cons_self, rfl, hp⟩
  have hend (he : (lookahead source.utf8ByteSize ls).token = .endOfInput) :
      (lookahead source.utf8ByteSize ls).start = source.utf8ByteSize := by
    rw [lookahead_isEnd (fun l hl => mem_lexemesOf_isEnd (hls.subset hl)) he]
    rfl
  cases d with
  | unexpectedToken found offset =>
    obtain ⟨rfl, hfound, ht⟩ := h
    rw [Truthful]
    apply there ⟨hfound, ht⟩
    rcases ht with ht | ⟨op, ht⟩ <;> simp [ht]
  | unexpectedEnd offset =>
    obtain ⟨rfl, ht⟩ := h
    exact hend ht
  | invalidCharacter character offset =>
    obtain ⟨rfl, ht⟩ := h
    obtain ⟨l, rs, rfl⟩ := exists_cons_of_lookahead (by rw [ht]; simp)
    have hl : l ∈ lexemesOf source := hls.subset List.mem_cons_self
    obtain ⟨first, cs, hchar, hblank, htext⟩ := charAt_of_mem hl
    obtain ⟨rfl, hdigit, hlanguage⟩ := ofText_eq_invalid hblank (htext.symm.trans ht)
    exact ⟨⟨l, hl, rfl, ht⟩, hchar, hdigit, hlanguage⟩
  | unterminatedGroup opened offset =>
    obtain ⟨rfl, hopened, hparen, hop⟩ := h
    obtain ⟨group, hg, rfl⟩ := Option.map_eq_some_iff.mp hopened
    obtain ⟨hgroup, hbefore⟩ := hc group (List.mem_of_mem_head? hg)
    refine ⟨hbefore _ (lookahead_start_mem _ _), hgroup, ?_⟩
    cases ht : (lookahead source.utf8ByteSize ls).token with
    | number v => exact .inr (there (.inl ⟨v, ht⟩) (by simp [ht]))
    | operator op => exact absurd ht (hop op)
    | leftParen => exact .inr (there (.inr (.inl ht)) (by simp [ht]))
    | rightParen => exact absurd ht hparen
    | endOfInput => exact .inl (hend ht)
    | invalid character => exact .inr (there (.inr (.inr ⟨character, ht⟩)) (by simp [ht]))
  | nestingTooDeep limit offset =>
    obtain ⟨rfl, hlimit, _, hl, _⟩ := h
    exact ⟨hlimit, there hl (by simp [hl])⟩
  | trailingToken found offset =>
    obtain ⟨rfl, hfound, ht⟩ := h
    rw [Truthful]
    apply there ⟨hfound, ht⟩
    rcases ht with ⟨v, ht⟩ | ht | ht <;> simp [ht]

theorem Config.Runs.truthful {source : String} {c : Config} {ls rest : List Lexeme} {v : Float}
    {events : List Event} (h : c.Runs source.utf8ByteSize ls v events rest)
    (hls : ls <:+ lexemesOf source) (hc : c.Grounded source ls) {r : Diagnostic}
    (hr : r ∈ reports events ∨
      r ∈ reports (Evaluator.trailing (lookahead source.utf8ByteSize rest))) :
    r.Truthful source := by
  induction h with
  | finished hf => exact (hf.fits hr).truthful hls hc
  | @consumed c d ls rest v events later hcon _ ih =>
    rw [reports_append, reports_append, reports_ofLookahead, List.append_nil, List.mem_append,
      or_assoc] at hr
    rcases hr with hr | hr
    · exact (hcon.fits hr).truthful hls hc
    · exact ih ((List.tail_suffix ls).trans hls) (hcon.grounded hls hc) hr

def Evaluator.Truthful (e : Evaluator) (source : String) : Prop :=
  (∃ n, e.Ready ((Tokenizer.ofString source).after n)) ∧ ∀ d ∈ e.diagnostics, d.Truthful source

namespace Evaluator.Truthful

variable {e : Evaluator} {source : String}

theorem new (n : Nat) : (Evaluator.new ((Tokenizer.ofString source).after n)).Truthful source := by
  refine ⟨⟨n, ready_new _⟩, fun d hd => ?_⟩
  rw [diagnostics_new] at hd
  cases hd

theorem advance (h : e.Truthful source) : e.advance.Truthful source := by
  obtain ⟨⟨n, hn⟩, hd⟩ := h
  refine ⟨⟨n + 1, ?_⟩, ?_⟩
  · rw [← Tokenizer.after_after]
    exact hn.advance
  · rw [diagnostics_eq, advance_trace, reports_append, reports_ofLookahead, List.append_nil]
    exact hd

theorem parse (h : e.Truthful source) : e.parse.2.Truthful source := by
  obtain ⟨⟨n, hn⟩, hd⟩ := h
  obtain ⟨events, m, hm, hruns, htrace⟩ := hn.parse
  rw [Tokenizer.after_finish, Tokenizer.finish_ofString, Tokenizer.after_lexemes] at hruns htrace
  rw [Tokenizer.after_after] at hm
  refine ⟨⟨n + m, hm⟩, fun d hd' => ?_⟩
  rw [diagnostics_eq, htrace, reports_append, reports_append, List.mem_append, List.mem_append,
    or_assoc] at hd'
  rcases hd' with hd' | hd'
  · exact hd d hd'
  · exact hruns.truthful (List.drop_suffix _ _) (Config.grounded_initial _ _) hd'

end Evaluator.Truthful

theorem diagnostics_history_truthful (source : String) (pulls : Nat) (ops : List Operation) :
    ∀ d ∈ (history source pulls ops).diagnostics,
      ((∃ l ∈ lexemesOf source, l.start = d.offset) ∨ d.offset = source.utf8ByteSize) ∧
        d.Truthful source ∧
        ∀ found offset, d = .unexpectedToken found offset ∨ d = .trailingToken found offset →
          found ≠ "end of input" ∧ found ≠ "invalid character" := by
  have h : (history source pulls ops).Truthful source :=
    history_induction (P := (·.Truthful source)) Evaluator.Truthful.new
      (fun _ he => he.parse) (fun _ he => he.advance) pulls ops
  intro d hd
  have ht := h.2 d hd
  refine ⟨mem_starts.mp ht.offset_mem_starts, ht, ?_⟩
  rintro found offset (rfl | rfl)
  · obtain ⟨l, _, _, rfl, hl⟩ := ht
    apply describe_ne <;> rcases hl with hl | ⟨op, hl⟩ <;> simp [hl]
  · obtain ⟨l, _, _, rfl, hl⟩ := ht
    apply describe_ne <;> rcases hl with ⟨v, hl⟩ | hl | hl <;> simp [hl]

theorem truthful_after_two_parses :
    .unterminatedGroup 1 3 ∈ (history "\t(@( )" 0 [.tryParse, .parse]).diagnostics ∧
      Diagnostic.Truthful "\t(@( )" (.unterminatedGroup 1 3) := by
  have h : (history "\t(@( )" 0 [.tryParse, .parse]).diagnostics =
      [.invalidCharacter '@' 2, .unterminatedGroup 1 3, .trailingToken "')'" 5,
        .unexpectedToken "')'" 5, .trailingToken "')'" 5] := by
    decide +kernel
  have hmem : .unterminatedGroup 1 3 ∈ (history "\t(@( )" 0 [.tryParse, .parse]).diagnostics := by
    rw [h]
    exact List.mem_cons_of_mem _ List.mem_cons_self
  exact ⟨hmem, (diagnostics_history_truthful _ _ _ _ hmem).2.1⟩

end Calculator
