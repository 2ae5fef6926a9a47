import Calculator.Proofs.Acceptance

namespace Calculator

def Viable (depth : Nat) (ls : List Lexeme) : Prop :=
  ∃ more e, Derives .expression depth (ls ++ more) e

def openings (ls : List Lexeme) : List Nat :=
  ls.foldl
    (fun opened l =>
      match l.token with
      | .leftParen => l.start :: opened
      | .rightParen => opened.tail
      | _ => opened)
    []

theorem openings_concat (ls : List Lexeme) (l : Lexeme) :
    openings (ls ++ [l]) =
      match l.token with
      | .leftParen => l.start :: openings ls
      | .rightParen => (openings ls).tail
      | _ => openings ls := by
  rw [openings, List.foldl_append]
  rfl

theorem Config.Accepts.openings_eq {c d : Config} {ls : List Lexeme} {l : Lexeme}
    (h : c.Accepts l d) (hc : c.groups.map Group.opened = openings ls)
    (hphase : ∀ n, c.phase ≠ .skipping n) :
    d.groups.map Group.opened = openings (ls ++ [l]) ∧ ∀ n, d.phase ≠ .skipping n := by
  obtain ⟨events, h, hr⟩ := h
  rw [openings_concat, ← hc]
  cases h with
  | number _ hl | product _ hl | sum _ hl => simp [hl]
  | opening _ hl => simp [hl]
  | tooDeep | invalid | unclosed => simp at hr
  | closed _ hg hl => simp [hl, hg]
  | nested hs | matched hs | passed hs => exact (hphase _ hs).elim

theorem Reads.openings_eq {c d : Config} {ls rs : List Lexeme} (h : Reads c rs d)
    (hc : c.groups.map Group.opened = openings ls) (hphase : ∀ n, c.phase ≠ .skipping n) :
    d.groups.map Group.opened = openings (ls ++ rs) := by
  induction h generalizing ls with
  | nil => rwa [List.append_nil]
  | cons ha _ ih =>
    obtain ⟨hd, hphase'⟩ := ha.openings_eq hc hphase
    rw [List.append_cons]
    exact ih hd hphase'

theorem Reads.openings_of_initial {c : Config} {ls : List Lexeme} (h : Reads .initial ls c) :
    c.groups.map Group.opened = openings ls := by
  have hinitial : Config.initial.groups.map Group.opened = openings [] := rfl
  simpa using h.openings_eq hinitial (by simp [Config.initial])

theorem Reads.viable {limit : Nat} {c : Config} {ls : List Lexeme} (h : Reads .initial ls c)
    (hlimit : maxDepth ≤ limit) : Viable limit ls :=
  (h.spells_of_initial hlimit).completed

theorem Config.Blocks.viable {c : Config} {ls : List Lexeme} {l : Lexeme} (h : c.Blocks l)
    (hr : Reads .initial ls c) : Viable (maxDepth + 1) (ls ++ [l]) := by
  obtain ⟨hc, hl, hd⟩ := h
  have hdepth : c.depth ≤ maxDepth := by
    cases hr.spells_of_initial (Nat.le_refl _) with
    | operand _ hdepth | complete _ hdepth => omega
  cases hr.spells_of_initial (Nat.le_succ maxDepth) with
  | @operand depth _ _ hsum hls =>
    obtain rfl : depth = 0 + 1 := by omega
    obtain ⟨more, e, he⟩ := (Leads.opening hls hl).completed
      (.number (l := ⟨.number 0, 0, "0"⟩) rfl)
    rw [List.append_assoc] at he
    exact ⟨_, e, he⟩
  | complete hc' => simp [hc'] at hc

theorem first_report {source : String} {d : Diagnostic} {ds : List Diagnostic}
    (h : (Evaluator.ofString source).parse.2.diagnostics = d :: ds) :
    ∃ before after c, lexemesOf source = before ++ after ∧ Reads .initial before c ∧
      (∀ c', ¬ c.Accepts (lookahead source.utf8ByteSize after) c') ∧
      d.Fits c (lookahead source.utf8ByteSize after) ∧
      (c.Blocks (lookahead source.utf8ByteSize after) →
        d = .nestingTooDeep maxDepth (lookahead source.utf8ByteSize after).start) := by
  obtain ⟨events, rest, hrun⟩ := exists_runOf source
  obtain ⟨before, after, c, later, hls, hc, hc', hr, hn⟩ := hrun.runs.split
  rw [hrun.diagnostics_eq, hr] at h
  refine ⟨before, after, c, hls, hc, hn, ?_⟩
  cases hc' with
  | finished hf =>
    have hd : d ∈ reports later ∨
        d ∈ reports (Evaluator.trailing (lookahead source.utf8ByteSize rest)) := by
      rw [← List.mem_append, h]
      exact List.mem_cons_self
    exact ⟨hf.fits hd, fun hb => (hb.not_finishes hf).elim⟩
  | @consumed _ c' _ _ _ events _ hcon _ =>
    obtain ⟨d', ds', hd'⟩ := List.exists_cons_of_ne_nil
      (fun hr => hn c' ⟨events, hcon, hr⟩ : reports events ≠ [])
    simp only [reports_append, hd', List.cons_append, List.cons.injEq] at h
    obtain ⟨rfl, _⟩ := h
    refine ⟨hcon.fits (by simp [hd']), fun hb => ?_⟩
    rw [hb.reports_eq hcon, List.cons.injEq] at hd'
    exact hd'.1.symm

/-- The report stands at the first lexeme that makes the lexemes before it no start of a sentence,
or at the end of the input if they are one but are no sentence. It blames the nesting exactly where
nothing else is wrong, and of the groups left open it names the innermost. -/
def FirstFault (source : String) (d : Diagnostic) : Prop :=
  (∃ before l after, lexemesOf source = before ++ l :: after ∧
    Viable maxDepth before ∧ ¬ Viable maxDepth (before ++ [l]) ∧ d.offset = l.start ∧
    ((∃ limit offset, d = .nestingTooDeep limit offset) ↔
      ∃ depth, Viable depth (before ++ [l])) ∧
    ∀ opened offset, d = .unterminatedGroup opened offset →
      (openings before).head? = some opened) ∨
  (Viable maxDepth (lexemesOf source) ∧
    (¬ ∃ e, Derives .expression maxDepth (lexemesOf source) e) ∧
    d.offset = source.utf8ByteSize ∧ (∀ limit offset, d ≠ .nestingTooDeep limit offset) ∧
    ∀ opened offset, d = .unterminatedGroup opened offset →
      (openings (lexemesOf source)).head? = some opened)

theorem firstFault_of_tryEvaluate (source : String) (d : Diagnostic)
    (h : tryEvaluate source = .error d) : FirstFault source d := by
  rcases tryEvaluate_cases source with ⟨e, he, hv⟩ | ⟨d', ds, hds, hd'⟩
  · rw [hv] at h
    cases h
  rw [hd', Except.error.injEq] at h
  rw [h] at hds
  obtain ⟨before, after, c, hls, hc, hn, hfits, hblocks⟩ := first_report hds
  have hviable := hc.viable (Nat.le_refl _)
  have hopened (opened offset : Nat) (ho : d = .unterminatedGroup opened offset) :
      (openings before).head? = some opened := by
    rw [ho] at hfits
    rw [← hc.openings_of_initial, List.head?_map]
    exact hfits.2.1
  cases after with
  | nil =>
    rw [List.append_nil] at hls
    rw [← hls] at hviable hopened
    refine .inr ⟨hviable, ?_, hfits.offset_eq, ?_, hopened⟩
    · rintro ⟨e, he⟩
      rw [tryEvaluate_of_derives he] at hd'
      cases hd'
    · rintro limit offset rfl
      have hl := hfits.2.2.2.1
      simp at hl
  | cons l after =>
    rw [lookahead_cons] at hn hfits hblocks
    have hblocked {depth : Nat} (hv : Viable depth (before ++ [l])) :
        maxDepth < depth ∧ c.Blocks l := by
      obtain ⟨more, e, he⟩ := hv
      rw [List.append_assoc] at he
      rcases he.accepts hc with ⟨c', ha⟩ | hb
      · exact (hn c' ha).elim
      · exact hb
    refine .inl ⟨before, l, after, hls, hviable, ?_, hfits.offset_eq, ?_, hopened⟩
    · intro hv
      exact Nat.lt_irrefl _ (hblocked hv).1
    · constructor
      · rintro ⟨limit, offset, rfl⟩
        exact ⟨_, hfits.2.2.viable hc⟩
      · rintro ⟨depth, hv⟩
        exact ⟨_, _, hblocks (hblocked hv).2⟩

theorem firstFault_of_empty_group :
    tryEvaluate "((\t) " = .error (.unexpectedToken "')'" 3) ∧
      FirstFault "((\t) " (.unexpectedToken "')'" 3) := by
  have h : tryEvaluate "((\t) " = .error (.unexpectedToken "')'" 3) := by
    rw [tryEvaluate_eq_error_iff]
    decide +kernel
  exact ⟨h, firstFault_of_tryEvaluate _ _ h⟩

end Calculator
