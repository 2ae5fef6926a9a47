import Calculator.Proofs.Applications

/-!
Lenient evaluation mends the lexemes: the reports of a parse, taken as edits, make a sentence of
them, and the value is that of the sentence.
-/

namespace Calculator

def Lexeme.zero (offset : Nat) : Lexeme :=
  ⟨.number 0, offset, "0"⟩

def Lexeme.closing (offset : Nat) : Lexeme :=
  ⟨.rightParen, offset, ")"⟩

/-- What follows the parenthesis that closes the outermost of `unmatched` open groups. -/
def behindGroup (unmatched : Nat) : List Lexeme → List Lexeme
  | [] => []
  | l :: ls =>
    match l.token with
    | .leftParen => behindGroup (unmatched + 1) ls
    | .rightParen => if unmatched - 1 = 0 then ls else behindGroup (unmatched - 1) ls
    | _ => behindGroup unmatched ls

theorem behindGroup_suffix (unmatched : Nat) (ls : List Lexeme) :
    behindGroup unmatched ls <:+ ls := by
  induction ls generalizing unmatched with
  | nil => exact List.suffix_refl _
  | cons l ls ih =>
    rw [behindGroup]
    split
    · exact (ih _).trans (List.suffix_cons l ls)
    · split
      · exact List.suffix_cons l ls
      · exact (ih _).trans (List.suffix_cons l ls)
    · exact (ih _).trans (List.suffix_cons l ls)

def StaysOpen (unmatched : Nat) (ls : List Lexeme) : Prop :=
  ∀ before, before <+: ls → 0 < nesting before + unmatched

theorem StaysOpen.nil {unmatched : Nat} (h : 0 < unmatched) : StaysOpen unmatched [] := by
  intro before hb
  rw [List.prefix_nil] at hb
  rw [hb, nesting_nil]
  omega

theorem StaysOpen.cons {unmatched inner : Nat} {l : Lexeme} {ls : List Lexeme}
    (h : 0 < unmatched) (hw : l.token.weight + unmatched = inner) (hls : StaysOpen inner ls) :
    StaysOpen unmatched (l :: ls) := by
  intro before hb
  rcases List.prefix_cons_iff.mp hb with rfl | ⟨inside, rfl, hi⟩
  · rw [nesting_nil]
    omega
  · have := hls inside hi
    rw [nesting_cons]
    omega

theorem behindGroup_cases {unmatched : Nat} (h : 0 < unmatched) (ls : List Lexeme) :
    (∃ inside l, ls = inside ++ l :: behindGroup unmatched ls ∧ l.token = .rightParen ∧
      nesting inside + unmatched = 1 ∧ StaysOpen unmatched inside) ∨
    behindGroup unmatched ls = [] ∧ StaysOpen unmatched ls := by
  induction ls generalizing unmatched with
  | nil => exact .inr ⟨rfl, .nil h⟩
  | cons l ls ih =>
    have step {inner : Nat} (hi : 0 < inner) (hw : l.token.weight + unmatched = inner)
        (hb : behindGroup unmatched (l :: ls) = behindGroup inner ls) :
        (∃ inside m, l :: ls = inside ++ m :: behindGroup unmatched (l :: ls) ∧
          m.token = .rightParen ∧ nesting inside + unmatched = 1 ∧
          StaysOpen unmatched inside) ∨
        behindGroup unmatched (l :: ls) = [] ∧ StaysOpen unmatched (l :: ls) := by
      rw [hb]
      rcases ih hi with ⟨inside, m, hls, hm, hn, ho⟩ | ⟨hnil, ho⟩
      · refine .inl ⟨l :: inside, m, ?_, hm, ?_, .cons h hw ho⟩
        · rw [List.cons_append, ← hls]
        · rw [nesting_cons]
          omega
      · exact .inr ⟨hnil, .cons h hw ho⟩
    cases hl : l.token with
    | leftParen =>
      apply step (Nat.succ_pos unmatched)
      · rw [hl, Token.weight]
        omega
      · rw [behindGroup, hl]
    | rightParen =>
      by_cases hlast : unmatched - 1 = 0
      · refine .inl ⟨[], l, ?_, hl, ?_, .nil h⟩
        · simp [behindGroup, hl, hlast]
        · rw [nesting_nil]
          omega
      · apply step (Nat.pos_of_ne_zero hlast)
        · rw [hl, Token.weight]
          omega
        · simp [behindGroup, hl, hlast]
    | _ =>
      apply step h
      · rw [hl, Token.weight]
        · omega
        all_goals simp
      · simp [behindGroup, hl]

namespace Diagnostic

def insertion : Diagnostic → List Lexeme
  | unexpectedToken _ offset | unexpectedEnd offset | invalidCharacter _ offset
  | nestingTooDeep _ offset => [.zero offset]
  | unterminatedGroup _ offset => [.closing offset]
  | trailingToken .. => []

def remainder (ls : List Lexeme) : Diagnostic → List Lexeme
  | unexpectedToken .. | unexpectedEnd _ => ls
  | invalidCharacter .. | unterminatedGroup .. => ls.tail
  | nestingTooDeep .. => behindGroup 1 ls.tail
  | trailingToken .. => []

theorem remainder_suffix (d : Diagnostic) (ls : List Lexeme) : d.remainder ls <:+ ls := by
  cases d with
  | unexpectedToken | unexpectedEnd => exact List.suffix_refl _
  | invalidCharacter | unterminatedGroup => exact List.tail_suffix ls
  | nestingTooDeep => exact (behindGroup_suffix 1 ls.tail).trans (List.tail_suffix ls)
  | trailingToken => exact List.nil_suffix

end Diagnostic

/-- The edits in order. Those of `last` take away their lexeme and all that follows it. -/
def mend (last : List Diagnostic) : List Lexeme → List Diagnostic → List Lexeme
  | ls, [] => ls.takeWhile fun l => last.all (·.offset != l.start)
  | [], d :: ds => d.insertion ++ mend last [] ds
  | l :: ls, d :: ds =>
    if d.offset = l.start then d.insertion ++ mend last (d.remainder (l :: ls)) ds
    else l :: mend last ls (d :: ds)
termination_by ls ds => ls.length + ds.length
decreasing_by
  · simp
  · have := (d.remainder_suffix (l :: ls)).length_le
    simp only [List.length_cons] at this ⊢
    omega
  · simp

section mend

variable {last ds : List Diagnostic} {l : Lexeme} {ls : List Lexeme} {stop : Nat}

theorem mend_keep (h : ∀ d ∈ ds ++ last, d.offset ≠ l.start) :
    mend last (l :: ls) ds = l :: mend last ls ds := by
  cases ds with
  | nil =>
    rw [mend, mend, List.takeWhile_cons_of_pos]
    rw [List.all_eq_true]
    intro d hd
    exact bne_iff_ne.mpr (h d hd)
  | cons d ds => rw [mend, if_neg (h d List.mem_cons_self)]

theorem mend_keep_of_starts (hsorted : (starts stop (l :: ls)).Pairwise (· < ·))
    (h : ∀ d ∈ ds ++ last, d.offset ∈ starts stop ls) :
    mend last (l :: ls) ds = l :: mend last ls ds := by
  apply mend_keep
  intro d hd
  rw [starts_cons, List.pairwise_cons] at hsorted
  exact Nat.ne_of_gt (hsorted.1 _ (h d hd))

theorem mend_edit_cons {d : Diagnostic} (h : d.offset = l.start) :
    mend last (l :: ls) (d :: ds) = d.insertion ++ mend last (d.remainder (l :: ls)) ds := by
  rw [mend, if_pos h]

theorem mend_edit {d : Diagnostic} (h : d.offset = (lookahead stop ls).start) :
    mend last ls (d :: ds) = d.insertion ++ mend last (d.remainder ls) ds := by
  cases ls with
  | nil =>
    have hnil : d.remainder [] = [] := List.suffix_nil.mp (d.remainder_suffix [])
    rw [mend, hnil]
  | cons l ls =>
    rw [lookahead_cons] at h
    exact mend_edit_cons h

theorem mend_last (h : ls = [] ∨ ∃ d ∈ last, d.offset = (lookahead stop ls).start) :
    mend last ls [] = [] := by
  rw [mend]
  cases ls with
  | nil => rfl
  | cons l ls =>
    obtain ⟨d, hd, ho⟩ := h.resolve_left (List.cons_ne_nil l ls)
    apply List.takeWhile_cons_of_neg
    intro hall
    rw [List.all_eq_true] at hall
    exact bne_iff_ne.mp (hall d hd) ho

end mend

def Config.settled (c : Config) : Config :=
  match c.phase with
  | .skipping _ => { c with phase := .complete 0 }
  | _ => c

def Config.unskipped (c : Config) (ls : List Lexeme) : List Lexeme :=
  match c.phase with
  | .skipping unmatched => behindGroup unmatched ls
  | _ => ls

theorem Config.settled_eq {c : Config} (h : ∀ n, c.phase ≠ .skipping n) : c.settled = c := by
  cases hc : c.phase with
  | skipping n => exact absurd hc (h n)
  | _ => simp only [settled, hc]

theorem Config.unskipped_eq {c : Config} (h : ∀ n, c.phase ≠ .skipping n) (ls : List Lexeme) :
    c.unskipped ls = ls := by
  cases hc : c.phase with
  | skipping n => exact absurd hc (h n)
  | _ => simp only [unskipped, hc]

theorem Config.performs_zero {c d : Config} {ls : List Lexeme} {done : List Application}
    (h : c.phase = .operand) (offset : Nat)
    (hd : Performs { c with phase := .complete 0 } ls done d) :
    Performs c (.zero offset :: ls) done d :=
  .cons (.number h rfl) rfl hd

theorem Config.Supplies.performs_mend {stop : Nat} {c d : Config} {ls : List Lexeme} {v : Float}
    {events : List Event} {last ds : List Diagnostic} {done : List Application}
    (h : c.Supplies (lookahead stop ls) v events) (hls : ∀ l ∈ ls, l.isEnd = false)
    (hd : Performs { c with phase := .complete v } (mend last ls ds) done d) :
    Performs c.settled (mend last (c.unskipped ls) (reports events ++ ds)) done d := by
  cases h with
  | complete hc =>
    rw [settled_eq (by simp [hc]), unskipped_eq (by simp [hc])]
    rw [← hc] at hd
    exact hd
  | missing hc | missingEnd hc =>
    rw [settled_eq (by simp [hc]), unskipped_eq (by simp [hc])]
    rw [reports_reported, reports_nil, List.singleton_append, mend_edit rfl]
    exact performs_zero hc _ hd
  | @skipped n hc hl =>
    obtain rfl := lookahead_isEnd hls hl
    simp only [settled, unskipped, hc]
    exact hd

theorem Config.Consumes.performs_mend {stop : Nat} {c d e : Config} {ls : List Lexeme}
    {events : List Event} {last ds : List Diagnostic} {done : List Application}
    (h : c.Consumes (lookahead stop ls) events d) (hls : ∀ l ∈ ls, l.isEnd = false)
    (hsorted : (starts stop ls).Pairwise (· < ·))
    (hds : ∀ r ∈ ds ++ last, r.offset ∈ starts stop ls.tail)
    (he : Performs d.settled (mend last (d.unskipped ls.tail) ds) done e) :
    Performs c.settled (mend last (c.unskipped ls) (reports events ++ ds))
      (applications events ++ done) e := by
  have keep {l : Lexeme} {rs : List Lexeme} (hl : ls = l :: rs) :
      mend last ls ds = l :: mend last rs ds := by
    rw [hl] at hsorted hds ⊢
    exact mend_keep_of_starts hsorted hds
  -- Where an operand is supplied its zero is put in first; the lexeme itself comes behind it.
  cases h with
  | number hc hl =>
    obtain ⟨l, rs, rfl⟩ := exists_cons_of_lookahead (by rw [hl]; simp)
    rw [settled_eq (by simp [hc]), unskipped_eq (by simp [hc]), reports_nil, List.nil_append,
      keep rfl]
    exact .cons (.number hc hl) rfl he
  | opening hc hl hdepth =>
    obtain ⟨l, rs, rfl⟩ := exists_cons_of_lookahead (by rw [hl]; simp)
    rw [settled_eq (by simp [hc]), unskipped_eq (by simp [hc]), reports_nil, List.nil_append,
      keep rfl]
    exact .cons (.opening hc hl hdepth) rfl he
  | tooDeep hc | invalid hc =>
    rw [settled_eq (by simp [hc]), unskipped_eq (by simp [hc]), reports_reported, reports_nil,
      List.singleton_append, mend_edit rfl]
    exact performs_zero hc _ he
  | product hs hl hop =>
    obtain ⟨l, rs, rfl⟩ := exists_cons_of_lookahead (by rw [hl]; simp)
    rw [reports_append, reports_settle, List.append_nil, applications_append, hs.applications_eq]
    apply hs.performs_mend hls
    rw [keep rfl]
    exact .cons (.product (.complete rfl) hl hop) (by simp) he
  | sum hs hl hop =>
    obtain ⟨l, rs, rfl⟩ := exists_cons_of_lookahead (by rw [hl]; simp)
    rw [reports_append, reports_total, List.append_nil, applications_append, hs.applications_eq]
    apply hs.performs_mend hls
    rw [keep rfl]
    exact .cons (.sum (.complete rfl) hl hop) (by simp) he
  | closed hs hg hl =>
    obtain ⟨l, rs, rfl⟩ := exists_cons_of_lookahead (by rw [hl]; simp)
    rw [reports_append, reports_total, List.append_nil, applications_append, hs.applications_eq]
    apply hs.performs_mend hls
    rw [keep rfl]
    exact .cons (.closed (.complete rfl) hg hl) (by simp) he
  | unclosed hs hg hl hop =>
    rw [reports_append, reports_append, reports_total, List.append_nil, List.append_assoc,
      applications_append, applications_append, hs.applications_eq, applications_reported,
      applications_nil, List.append_nil]
    apply hs.performs_mend hls
    rw [reports_reported, reports_nil, List.singleton_append, mend_edit rfl]
    exact .cons (.closed (.complete rfl) hg rfl) (by simp) he
  | nested hc hl =>
    obtain ⟨l, rs, rfl⟩ := exists_cons_of_lookahead (by rw [hl]; simp)
    rw [lookahead_cons] at hl
    simpa [settled, unskipped, hc, behindGroup, hl] using he
  | @matched n hc hl =>
    obtain ⟨l, rs, rfl⟩ := exists_cons_of_lookahead (by rw [hl]; simp)
    rw [lookahead_cons] at hl
    by_cases hn : n - 1 = 0
    · simpa [settled, unskipped, hc, behindGroup, hl, hn] using he
    · simpa [settled, unskipped, hc, behindGroup, hl, hn] using he
  | passed hc hlp hrp hend =>
    obtain ⟨l, rs, rfl⟩ := exists_cons_of_lookahead hend
    rw [lookahead_cons] at hlp hrp
    simpa [settled, unskipped, hc, behindGroup] using he

theorem Evaluator.nil_or_trailing_offset {stop : Nat} {ls : List Lexeme}
    (hls : ∀ l ∈ ls, l.isEnd = false) :
    ls = [] ∨
      ∃ d ∈ reports (trailing (lookahead stop ls)), d.offset = (lookahead stop ls).start := by
  by_cases he : (lookahead stop ls).token = .endOfInput
  · exact .inl (lookahead_isEnd hls he)
  · obtain ⟨r, hr, ho⟩ := reports_trailing he
    exact .inr ⟨r, by simp [hr], ho⟩

theorem Config.Runs.performs_mend {stop : Nat} {c : Config} {ls rest : List Lexeme} {v : Float}
    {events : List Event} (h : c.Runs stop ls v events rest) (hls : ∀ l ∈ ls, l.isEnd = false)
    (hsorted : (starts stop ls).Pairwise (· < ·)) :
    ∃ d done es, Performs c.settled (mend (reports (Evaluator.trailing (lookahead stop rest)))
        (c.unskipped ls) (reports events)) done d ∧
      d.Finishes (lookahead stop []) v es ∧ reports es = [] ∧
      applications events = done ++ applications es := by
  induction h with
  | @finished c ls v events hf =>
    cases hf with
    | @mk w events hs hg _ =>
      refine ⟨{ c with phase := .complete w }, [], _, ?_, .mk (.complete rfl) hg (by simp),
        reports_total c.level w, ?_⟩
      · rw [reports_append, reports_total]
        apply hs.performs_mend hls
        rw [mend_last (Evaluator.nil_or_trailing_offset hls)]
        exact .nil
      · rw [applications_append, hs.applications_eq]
        rfl
  | @consumed c d ls rest v events later hc hr ih =>
    have htail := pairwise_starts_of_suffix (List.tail_suffix ls) hsorted
    obtain ⟨d', done, es, hd, hf, hes, hdone⟩ :=
      ih (fun l hl => hls l (List.mem_of_mem_tail hl)) htail
    refine ⟨d', applications events ++ done, es, ?_, hf, hes, ?_⟩
    · rw [reports_append, reports_append, reports_ofLookahead, List.append_nil]
      apply hc.performs_mend hls hsorted _ hd
      intro r hr'
      exact hr.offset_mem_starts (List.mem_append.mp hr')
    · rw [applications_append, applications_append, applications_ofLookahead, hdone,
        List.append_nil, List.append_assoc]

theorem Config.Runs.mended {stop : Nat} {c : Config} {ls rest : List Lexeme} {v : Float}
    {events : List Event} (h : c.Runs stop ls v events rest) (hls : ∀ l ∈ ls, l.isEnd = false)
    (hsorted : (starts stop ls).Pairwise (· < ·)) :
    ∃ d es, Reads c.settled (mend (reports (Evaluator.trailing (lookahead stop rest)))
        (c.unskipped ls) (reports events)) d ∧
      d.Finishes (lookahead stop []) v es ∧ reports es = [] := by
  obtain ⟨d, done, es, hd, hf, hes, _⟩ := h.performs_mend hls hsorted
  exact ⟨d, es, hd.reads, hf, hes⟩

namespace Diagnostic

def Removes (d : Diagnostic) (ls : List Lexeme) (l : Lexeme) : Prop :=
  ∃ before m after removed, ls = before ++ m :: after ∧ d.offset = m.start ∧
    m :: after = removed ++ d.remainder (m :: after) ∧ l ∈ removed

def Truncates (d : Diagnostic) (ls : List Lexeme) (l : Lexeme) : Prop :=
  ∃ before m after, ls = before ++ m :: after ∧ d.offset = m.start ∧ l ∈ m :: after

theorem Removes.append {d : Diagnostic} {ls : List Lexeme} {l : Lexeme} (h : d.Removes ls l)
    (earlier : List Lexeme) : d.Removes (earlier ++ ls) l := by
  obtain ⟨before, m, after, removed, rfl, ho, hr, hl⟩ := h
  exact ⟨earlier ++ before, m, after, removed, by simp, ho, hr, hl⟩

theorem Truncates.append {d : Diagnostic} {ls : List Lexeme} {l : Lexeme} (h : d.Truncates ls l)
    (earlier : List Lexeme) : d.Truncates (earlier ++ ls) l := by
  obtain ⟨before, m, after, rfl, ho, hl⟩ := h
  exact ⟨earlier ++ before, m, after, by simp, ho, hl⟩

end Diagnostic

theorem mend_keeps (last : List Diagnostic) (ls : List Lexeme) (ds : List Diagnostic) :
    ∃ kept : List Lexeme, kept.Sublist ls ∧ kept.Sublist (mend last ls ds) ∧
      ∀ l ∈ ls, l ∈ kept ∨ (∃ d ∈ ds, d.Removes ls l) ∨ ∃ d ∈ last, d.Truncates ls l := by
  induction ls, ds using mend.induct with
  | case1 ls =>
    rw [mend]
    refine ⟨_, List.takeWhile_sublist _, List.Sublist.refl _, ?_⟩
    intro l hl
    generalize hp : (fun l : Lexeme => last.all (·.offset != l.start)) = p
    have hsplit := List.takeWhile_append_dropWhile (p := p) (l := ls)
    rw [← hsplit, List.mem_append] at hl
    rcases hl with hl | hl
    · exact .inl hl
    · obtain ⟨m, after, hm⟩ := List.exists_cons_of_ne_nil (List.ne_nil_of_mem hl)
      have hnot := List.head_dropWhile_not p (List.ne_nil_of_mem hl)
      simp only [hm, List.head_cons] at hnot
      simp only [← hp, List.all_eq_false, bne_iff_ne, ne_eq, Decidable.not_not] at hnot
      obtain ⟨d, hd, ho⟩ := hnot
      rw [hm] at hl hsplit
      exact .inr (.inr ⟨d, hd, _, m, after, hsplit.symm, ho, hl⟩)
  | case2 d ds => exact ⟨[], List.nil_sublist _, List.nil_sublist _, fun l hl => by cases hl⟩
  | case3 l ls d ds ho ih =>
    obtain ⟨kept, hls, hmend, hkept⟩ := ih
    obtain ⟨removed, hr⟩ := d.remainder_suffix (l :: ls)
    refine ⟨kept, hls.trans (d.remainder_suffix _).sublist, ?_, ?_⟩
    · rw [mend, if_pos ho]
      exact hmend.trans (List.sublist_append_right _ _)
    · intro m hm
      rw [← hr, List.mem_append] at hm
      rcases hm with hm | hm
      · exact .inr (.inl ⟨d, List.mem_cons_self, [], l, ls, removed, rfl, ho, hr.symm, hm⟩)
      · rcases hkept m hm with hk | ⟨d', hd', hrem⟩ | ⟨d', hd', htrunc⟩
        · exact .inl hk
        · have := hrem.append removed
          rw [hr] at this
          exact .inr (.inl ⟨d', List.mem_cons_of_mem d hd', this⟩)
        · have := htrunc.append removed
          rw [hr] at this
          exact .inr (.inr ⟨d', hd', this⟩)
  | case4 l ls d ds ho ih =>
    obtain ⟨kept, hls, hmend, hkept⟩ := ih
    refine ⟨l :: kept, hls.cons_cons l, ?_, ?_⟩
    · rw [mend, if_neg ho]
      exact hmend.cons_cons l
    · intro m hm
      rcases List.mem_cons.mp hm with rfl | hm
      · exact .inl List.mem_cons_self
      · rcases hkept m hm with hk | ⟨d', hd', hrem⟩ | ⟨d', hd', htrunc⟩
        · exact .inl (List.mem_cons_of_mem l hk)
        · exact .inr (.inl ⟨d', hd', hrem.append [l]⟩)
        · exact .inr (.inr ⟨d', hd', htrunc.append [l]⟩)

theorem evaluate_eq_value_mend (source : String) :
    let run := (Evaluator.ofString source).run .initial
    let last := reports (Evaluator.trailing run.2.current)
    let mended := mend last (lexemesOf source) run.2.diagnostics
    (Evaluator.ofString source).parse.2.diagnostics = run.2.diagnostics ++ last ∧
    (∃ e, e.value = evaluate source ∧ ∀ f, Derives .expression maxDepth mended f ↔ f = e) ∧
    ∃ kept : List Lexeme, kept.Sublist (lexemesOf source) ∧ kept.Sublist mended ∧
      ∀ l ∈ lexemesOf source, l ∈ kept ∨
        (∃ d ∈ run.2.diagnostics, d.Removes (lexemesOf source) l) ∨
        ∃ d ∈ last, d.Truncates (lexemesOf source) l := by
  intro run last mended
  refine ⟨Evaluator.diagnostics_parse rfl, ?_, mend_keeps last _ _⟩
  obtain ⟨events, rest, hrun⟩ := exists_runOf source
  obtain ⟨d, es, hd, hf, hes⟩ := hrun.runs.mended (fun l hl => mem_lexemesOf_isEnd hl)
    (pairwise_lexemesOf source)
  rw [← hrun.diagnostics_run, ← hrun.current_eq] at hd
  obtain ⟨e, he, hv⟩ := (hd.spells_of_initial (Nat.le_refl _)).finished hf hes
  refine ⟨e, hv, fun f => ⟨fun h => h.unique he, ?_⟩⟩
  rintro rfl
  exact he

end Calculator
