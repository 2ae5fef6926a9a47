import Calculator.Proofs.Operators

namespace Calculator

def Event.lexeme? : Event → Option Lexeme
  | scanned l => some l
  | _ => none

def scans (events : List Event) : List Lexeme :=
  events.filterMap Event.lexeme?

@[simp]
theorem scans_nil : scans [] = [] := rfl

@[simp]
theorem scans_append (earlier later : List Event) :
    scans (earlier ++ later) = scans earlier ++ scans later :=
  List.filterMap_append

@[simp]
theorem scans_reported (d : Diagnostic) (events : List Event) :
    scans (.reported d :: events) = scans events := rfl

@[simp]
theorem scans_settle (p : Option Pending) (v : Float) : scans (settle p v).2 = [] := by
  cases p <;> rfl

@[simp]
theorem scans_total (level : Level) (v : Float) : scans (level.total v).2 = [] := by
  simp [Level.total]

@[simp]
theorem scans_trailing (l : Lexeme) : scans (Evaluator.trailing l) = [] := by
  unfold Evaluator.trailing
  split <;> rfl

@[simp]
theorem applications_trailing (l : Lexeme) : applications (Evaluator.trailing l) = [] := by
  unfold Evaluator.trailing
  split <;> rfl

theorem scans_ofLookahead {stop : Nat} {ls : List Lexeme} (hls : ∀ l ∈ ls, l.isEnd = false) :
    scans (Event.ofLookahead (lookahead stop ls)) = ls.take 1 := by
  cases ls with
  | nil => rfl
  | cons l ls =>
    rw [lookahead_cons, Event.ofLookahead, hls l List.mem_cons_self]
    rfl

def Lexeme.line (l : Lexeme) : String :=
  "token " ++ l.token.label ++ " at " ++ toString l.start ++ ".." ++ toString l.stop

def Application.line (a : Application) : String :=
  Decimal.Layout.plain.float a.left ++ " " ++ a.op.symbol ++ " " ++
    Decimal.Layout.plain.float a.right

theorem messages_eq {α : Type} {p : Event → Bool} {f : Event → Option α} {line : α → String}
    (hp : ∀ event, p event = (f event).isSome)
    (hline : ∀ event a, f event = some a → event.message = line a) (events : List Event) :
    (events.filter p).map Event.message = (events.filterMap f).map line := by
  induction events with
  | nil => rfl
  | cons event events ih =>
    have hevent := hp event
    cases hf : f event with
    | none =>
      rw [hf, Option.isSome_none] at hevent
      rw [List.filter_cons_of_neg (by simp [hevent]), List.filterMap_cons_none hf, ih]
    | some a =>
      rw [hf, Option.isSome_some] at hevent
      rw [List.filter_cons_of_pos hevent, List.filterMap_cons_some hf, List.map_cons, List.map_cons,
        hline event a hf, ih]

theorem warnings_eq (events : List Event) :
    (events.filter (·.severity = .warning)).map Event.message =
      (reports events).map Diagnostic.message := by
  apply messages_eq
  · intro event
    cases event <;> rfl
  · rintro (l | _ | d) _ h <;> cases h
    rfl

theorem scanned_lines (events : List Event) :
    (events.filter (·.lexeme?.isSome)).map Event.message = (scans events).map Lexeme.line := by
  apply messages_eq
  · exact fun _ => rfl
  · rintro (l | _ | d) _ h <;> cases h
    rfl

theorem applied_lines (events : List Event) :
    (events.filter (·.application?.isSome)).map Event.message =
      (applications events).map Application.line := by
  apply messages_eq
  · exact fun _ => rfl
  · rintro (l | _ | d) _ h <;> cases h
    rfl

theorem traces_perm (events : List Event) :
    ((events.filter (·.severity = .trace)).map Event.message).Perm
      ((scans events).map Lexeme.line ++ (applications events).map Application.line) := by
  rw [← scanned_lines, ← applied_lines, ← List.map_append]
  apply List.Perm.map
  induction events with
  | nil => exact .refl _
  | cons event events ih =>
    cases event with
    | scanned l => exact ih.cons _
    | applied left op right => exact (ih.cons _).trans List.perm_middle.symm
    | reported d => exact ih

namespace Config

variable {c d : Config} {l : Lexeme} {v : Float} {events : List Event}

theorem Supplies.scans_eq (h : c.Supplies l v events) : scans events = [] := by
  cases h <;> rfl

theorem Consumes.scans_eq (h : c.Consumes l events d) : scans events = [] := by
  cases h with
  | product hs | sum hs | closed hs | unclosed hs => simp [hs.scans_eq]
  | _ => rfl

theorem Finishes.scans_eq (h : c.Finishes l v events) : scans events = [] := by
  obtain ⟨hs, _, _⟩ := h
  simp [hs.scans_eq]

end Config

def Told (ls : List Lexeme) (events : List Event) (ahead : List Lexeme) : Prop :=
  ∃ read, ls = read ++ ahead ∧ scans events = read ++ ahead.take 1

def Prompt (stop : Nat) (ls : List Lexeme) (log : List Event) : Prop :=
  ∀ earlier d later, log = earlier ++ .reported d :: later →
    ∃ ahead, Told ls earlier ahead ∧ d.offset = (lookahead stop ahead).start

section

variable {stop : Nat} {ls ahead : List Lexeme} {events later : List Event}

theorem Told.first (hls : ∀ l ∈ ls, l.isEnd = false) (hscans : scans events = []) :
    Told ls (Event.ofLookahead (lookahead stop ls) ++ events) ls := by
  refine ⟨[], rfl, ?_⟩
  rw [scans_append, scans_ofLookahead hls, hscans, List.append_nil, List.nil_append]

theorem Told.step (h : Told ls.tail later ahead) (hls : ∀ l ∈ ls, l.isEnd = false)
    (hscans : scans events = []) :
    Told ls (Event.ofLookahead (lookahead stop ls) ++ events ++ later) ahead := by
  obtain ⟨read, htail, hread⟩ := h
  refine ⟨ls.take 1 ++ read, ?_, ?_⟩
  · rw [List.append_assoc, ← htail, ← List.drop_one, List.take_append_drop]
  · rw [scans_append, scans_append, scans_ofLookahead hls, hscans, hread, List.append_nil,
      List.append_assoc]

theorem Prompt.of_fits {c : Config} (hls : ∀ l ∈ ls, l.isEnd = false) (hscans : scans events = [])
    (hfits : ∀ r ∈ reports events, r.Fits c (lookahead stop ls)) :
    Prompt stop ls (Event.ofLookahead (lookahead stop ls) ++ events) := by
  intro earlier d behind h
  rcases append_eq_append_cons h with ⟨between, h, _⟩ | ⟨between, rfl, rfl⟩
  · have hreports := reports_ofLookahead (lookahead stop ls)
    rw [h, reports_append, reports_reported] at hreports
    cases (List.append_eq_nil_iff.mp hreports).2
  · rw [scans_append, List.append_eq_nil_iff] at hscans
    exact ⟨ls, Told.first hls hscans.1, (hfits d (by simp)).offset_eq⟩

theorem Prompt.append (h : Prompt stop ls (Event.ofLookahead (lookahead stop ls) ++ events))
    (hlater : Prompt stop ls.tail later) (hls : ∀ l ∈ ls, l.isEnd = false)
    (hscans : scans events = []) :
    Prompt stop ls (Event.ofLookahead (lookahead stop ls) ++ events ++ later) := by
  intro earlier d behind hsplit
  rcases append_eq_append_cons hsplit with ⟨between, hfirst, _⟩ | ⟨between, rfl, hsecond⟩
  · exact h earlier d between hfirst
  · obtain ⟨ahead, htold, ho⟩ := hlater between d behind hsecond
    exact ⟨ahead, htold.step hls hscans, ho⟩

end

namespace Config.Runs

variable {stop : Nat} {c : Config} {ls rest : List Lexeme} {v : Float} {events : List Event}

theorem told (h : c.Runs stop ls v events rest) (hls : ∀ l ∈ ls, l.isEnd = false) :
    Told ls (Event.ofLookahead (lookahead stop ls) ++ events) rest := by
  induction h with
  | finished hf => exact Told.first hls hf.scans_eq
  | @consumed c d ls rest v events later hc _ ih =>
    have hlater := ih fun l hl => hls l (List.mem_of_mem_tail hl)
    rw [List.append_assoc events, ← List.append_assoc]
    exact hlater.step hls hc.scans_eq

theorem prompt (h : c.Runs stop ls v events rest) (hls : ∀ l ∈ ls, l.isEnd = false) :
    Prompt stop ls (Event.ofLookahead (lookahead stop ls) ++ events ++
      Evaluator.trailing (lookahead stop rest)) := by
  induction h with
  | @finished c ls v events hf =>
    rw [List.append_assoc]
    apply Prompt.of_fits hls
    · rw [scans_append, hf.scans_eq, scans_trailing, List.append_nil]
    · intro r hr
      rw [reports_append, List.mem_append] at hr
      exact hf.fits hr
  | @consumed c d ls rest v events later hc _ ih =>
    have hlater := ih fun l hl => hls l (List.mem_of_mem_tail hl)
    have hfirst := Prompt.of_fits hls hc.scans_eq fun r hr => hc.fits hr
    have hall := hfirst.append hlater hls hc.scans_eq
    simpa only [List.append_assoc] using hall

theorem applications_eq (h : Config.initial.Runs stop ls v events rest)
    (hls : ∀ l ∈ ls, l.isEnd = false) (hsorted : (starts stop ls).Pairwise (· < ·)) :
    ∃ e, Derives .expression maxDepth
        (mend (reports (Evaluator.trailing (lookahead stop rest))) ls (reports events)) e ∧
      e.value = v ∧ applications events = e.applications := by
  obtain ⟨d, done, es, hd, hf, hes, hdone⟩ := h.performs_mend hls hsorted
  obtain ⟨e, he, hv⟩ := (hd.reads.spells_of_initial (Nat.le_refl _)).finished hf hes
  exact ⟨e, he, hv, hdone.trans (he.applications_eq (Nat.le_refl _) hd hf).symm⟩

theorem operators_eq (h : Config.initial.Runs stop ls v events rest)
    (hls : ∀ l ∈ ls, l.isEnd = false) (hsorted : (starts stop ls).Pairwise (· < ·)) :
    ∃ read, ls = read ++ rest ∧
      operators (mend (reports (Evaluator.trailing (lookahead stop rest))) ls (reports events)) =
        operators (outside (deepOffsets (reports events)) read) :=
  h.operators_mend hls hsorted fun _ _ => mem_deepOffsets

end Config.Runs

theorem Told.latest {ls ahead : List Lexeme} {events : List Event} (h : Told ls events ahead)
    (stop : Nat) :
    (scans events).getLast? = some (lookahead stop ahead) ∨
      (lookahead stop ahead).start = stop ∧ scans events = ls := by
  obtain ⟨read, rfl, hread⟩ := h
  rw [hread]
  cases ahead with
  | nil => exact .inr ⟨rfl, by simp⟩
  | cons l ahead => exact .inl (by simp)

theorem deepOffsets_trailing (l : Lexeme) : deepOffsets (reports (Evaluator.trailing l)) = [] := by
  unfold Evaluator.trailing
  split <;> rfl

def logOf (source : String) : List Event :=
  (Evaluator.ofString source).parse.2.trace.toList

theorem logOf_eq (source : String) :
    logOf source = ((Evaluator.ofString source).run .initial).2.trace.toList ++
      Evaluator.trailing (Evaluator.ofString source).parse.2.current :=
  Evaluator.record_trace _ _

def mendedOf (source : String) : List Lexeme :=
  mend (reports (Evaluator.trailing (Evaluator.ofString source).parse.2.current)) (lexemesOf source)
    ((Evaluator.ofString source).run .initial).2.diagnostics

/-- What the log tells of an evaluation that consumes `read`, leaves `rest` and has the value of
`e`, the expression of the mended lexemes. -/
structure Faithful (source : String) (log : List Event) (read rest : List Lexeme) (e : Expr) :
    Prop where
  warnings : (log.filter (·.severity = .warning)).map Event.message =
    (Evaluator.ofString source).parse.2.diagnostics.map Diagnostic.message
  traces : ((log.filter (·.severity = .trace)).map Event.message).Perm
    ((read ++ rest.take 1).map Lexeme.line ++ e.applications.map Application.line)
  scanned_lines : (log.filter (·.lexeme?.isSome)).map Event.message =
    (read ++ rest.take 1).map Lexeme.line
  applied_lines : (log.filter (·.application?.isSome)).map Event.message =
    e.applications.map Application.line
  lexemes : lexemesOf source = read ++ rest
  current : (Evaluator.ofString source).parse.2.current = lookahead source.utf8ByteSize rest
  scanned : scans log = read ++ rest.take 1
  silent : ∀ l ∈ scans log, l.isEnd = false
  latest : ∀ earlier d later, log = earlier ++ .reported d :: later →
    (∃ l, (scans earlier).getLast? = some l ∧ l.start = d.offset) ∨
      d.offset = source.utf8ByteSize ∧ scans earlier = lexemesOf source
  sentence : Derives .expression maxDepth (mendedOf source) e
  value : e.value = evaluate source
  applied : applications log = e.applications
  rearranged : e.applications.Perm e.inorder
  operators : List.Forall₂ (fun l a => l.token = .operator a.op)
    (operators (outside (deepOffsets (Evaluator.ofString source).parse.2.diagnostics) read))
    e.inorder

theorem log_faithful (source : String) :
    ∃ read rest e, Faithful source (logOf source) read rest e := by
  have hls : ∀ l ∈ lexemesOf source, l.isEnd = false := fun _ => mem_lexemesOf_isEnd
  have hlog := logOf_eq source
  obtain ⟨events, rest, hruns, htrace, hcurrent⟩ := exists_runOf source
  have hreports := RunOf.diagnostics_run ⟨hruns, htrace, hcurrent⟩
  change (Evaluator.ofString source).parse.2.current = _ at hcurrent
  rw [htrace] at hlog
  obtain ⟨e, he, hv, happlied⟩ := hruns.applications_eq hls (pairwise_lexemesOf source)
  obtain ⟨read, hread, hops⟩ := hruns.operators_eq hls (pairwise_lexemesOf source)
  obtain ⟨read', hread', hscans⟩ := hruns.told hls
  obtain rfl := List.append_cancel_right (hread.symm.trans hread')
  rw [← hcurrent, ← hreports] at he hops
  have htold : scans (logOf source) = read ++ rest.take 1 := by
    rw [hlog, scans_append, scans_trailing, hscans, List.append_nil]
  have happlied : applications (logOf source) = e.applications := by
    rw [hlog, applications_append, applications_append, applications_ofLookahead,
      applications_trailing, List.append_nil, List.nil_append]
    exact happlied
  exact ⟨read, rest, e, {
    warnings := warnings_eq (logOf source)
    traces := by
      have htraces := traces_perm (logOf source)
      rwa [htold, happlied] at htraces
    scanned_lines := by rw [scanned_lines, htold]
    applied_lines := by rw [applied_lines, happlied]
    lexemes := hread
    current := hcurrent
    scanned := htold
    silent := by
      intro l hl
      rw [htold] at hl
      apply hls l
      rw [hread]
      rcases List.mem_append.mp hl with hl | hl
      · exact List.mem_append_left _ hl
      · exact List.mem_append_right _ (List.mem_of_mem_take hl)
    latest := by
      intro earlier d later hsplit
      have hprompt := hruns.prompt hls
      rw [← hcurrent, ← hlog] at hprompt
      obtain ⟨ahead, hahead, ho⟩ := hprompt earlier d later hsplit
      rw [ho]
      exact (hahead.latest source.utf8ByteSize).imp_left fun h => ⟨_, h, rfl⟩
    sentence := he
    value := hv
    applied := happlied
    rearranged := e.applications_perm_inorder
    operators := by
      rw [Evaluator.diagnostics_parse rfl, deepOffsets_append, deepOffsets_trailing,
        List.append_nil, ← hops]
      exact he.operators_inorder }⟩

end Calculator
