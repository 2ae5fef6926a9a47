import Mathlib.Data.List.Perm.Subperm
import Calculator.Proofs.Calls
import Calculator.Proofs.Reports

namespace Calculator

namespace Config

variable {c d : Config} {l : Lexeme} {v : Float} {events : List Event} {stop : Nat}
  {ls rest : List Lexeme} {late : List Diagnostic}

def positions (c : Config) (stop : Nat) (ls : List Lexeme) : List Nat :=
  (c.groups.map Group.opened).reverse ++ starts stop ls

theorem starts_tail_sublist (stop : Nat) (ls : List Lexeme) :
    (starts stop ls.tail).Sublist (starts stop ls) :=
  ((List.tail_sublist ls).map _).append_right _

theorem Consumes.positions_sublist (h : c.Consumes (lookahead stop ls) events d) :
    (d.positions stop ls.tail).Sublist (c.positions stop ls) := by
  have htail := starts_tail_sublist stop ls
  simp only [positions]
  rcases h.groups_cases with hsame | ⟨hl, hpush⟩ | ⟨group, outer, v, hpop, rfl⟩
  · rw [hsame]
    exact htail.append_left _
  · obtain ⟨l, rs, rfl⟩ := exists_cons_of_lookahead (by rw [hl]; simp)
    rw [hpush, List.map_cons, List.reverse_cons, List.append_assoc]
    exact List.Sublist.refl _
  · rw [hpop, List.map_cons, List.reverse_cons, List.append_assoc]
    exact (htail.trans (List.sublist_append_right _ _)).append_left _

def lacking (c : Config) (stop : Nat) : List Diagnostic :=
  match c.phase with
  | .operand => [.unexpectedEnd stop]
  | _ => []

theorem lacking_cases (c : Config) (stop : Nat) :
    c.lacking stop = [] ∨ c.lacking stop = [.unexpectedEnd stop] := by
  cases hc : c.phase with
  | operand => exact .inr (by rw [lacking, hc])
  | complete | skipping => exact .inl (by rw [lacking, hc])

theorem Supplies.reports_at_end (h : c.Supplies l v events) (hl : l.token = .endOfInput) :
    reports events = c.lacking l.start := by
  cases h with
  | complete hc => simp [lacking, hc]
  | missing _ ht => simp [hl] at ht
  | missingEnd hc => simp [lacking, hc]
  | skipped hc => simp [lacking, hc]

theorem Runs.reports_at_end (h : c.Runs stop [] v events rest) :
    rest = [] ∧
      reports events = c.lacking stop ++ c.groups.map (.unterminatedGroup ·.opened stop) := by
  generalize hls : [] = ls at h
  induction h with
  | finished hf =>
    subst hls
    obtain ⟨hs, hg, _⟩ := hf
    simp [hs.reports_at_end rfl, hg]
  | consumed hcon _ ih =>
    subst hls
    obtain ⟨hrest, hlater⟩ := ih rfl
    refine ⟨hrest, ?_⟩
    cases hcon with
    | unclosed hs hg =>
      rw [hg]
      simp [hs.reports_at_end rfl, hlater, lacking]
    | passed _ _ _ he => exact absurd rfl he
    | _ => simp_all

theorem Supplies.offsets_sublist (h : c.Supplies l v events) :
    ((reports events).map Diagnostic.offset).Sublist [l.start] := by
  cases h with
  | complete | skipped => exact List.nil_sublist _
  | missing | missingEnd => exact List.Sublist.refl _

theorem Supplies.reports_eq_nil (h : c.Supplies l v events) (hend : l.token ≠ .endOfInput)
    (hparen : l.token ≠ .rightParen) (hop : ∀ op, l.token ≠ .operator op) :
    reports events = [] := by
  cases h with
  | complete | skipped => rfl
  | missing _ hl =>
    rcases hl with hl | ⟨op, hl⟩
    · exact absurd hl hparen
    · exact absurd hl (hop op)
  | missingEnd _ hl => exact absurd hl hend

theorem Consumes.offsets_sublist (h : c.Consumes l events d) (hl : l.token ≠ .endOfInput) :
    ((reports events).map Diagnostic.offset).Sublist [l.start] := by
  cases h with
  | number | opening | nested | matched | passed => exact List.nil_sublist _
  | tooDeep | invalid => exact List.Sublist.refl _
  | product hs | sum hs | closed hs =>
    have hone := hs.offsets_sublist
    simpa using hone
  | unclosed hs _ hparen hop =>
    simp [hs.reports_eq_nil hl hparen hop, Diagnostic.offset]

theorem Consumes.length_reports_le (h : c.Consumes l events d) (hl : l.token ≠ .endOfInput) :
    (reports events).length + d.groups.length ≤ c.groups.length + 1 := by
  have hone := (h.offsets_sublist hl).length_le
  rw [List.length_map, List.length_singleton] at hone
  cases h with
  | opening => simp
  | closed _ hg | unclosed _ hg =>
    rw [hg, List.length_cons]
    simp only
    omega
  | _ =>
    change _ + c.groups.length ≤ _
    omega

theorem Runs.length_reports_le (h : c.Runs stop ls v events rest)
    (hls : ∀ l ∈ ls, l.isEnd = false) :
    (reports events).length + (reports (Evaluator.trailing (lookahead stop rest))).length ≤
      ls.length + c.groups.length + 1 := by
  induction h with
  | @finished c ls v events hf =>
    obtain ⟨hs, _, _⟩ := hf
    have hone := hs.offsets_sublist.length_le
    rw [List.length_map, List.length_singleton] at hone
    rw [reports_append, reports_total, List.append_nil]
    cases ls with
    | nil =>
      simp only [lookahead_nil, Evaluator.trailing, reports_nil, List.length_nil]
      omega
    | cons l more =>
      have htrailing := Evaluator.length_trailing_le l
      rw [lookahead_cons, List.length_cons]
      omega
  | @consumed c d ls rest v events later hcon hruns ih =>
    cases ls with
    | nil =>
      -- Whatever is consumed at the end closes a group, so the groups pay for the reports.
      obtain ⟨rfl, hreports⟩ := (Runs.consumed hcon hruns).reports_at_end
      have hone : (c.lacking stop).length ≤ 1 := by
        rcases c.lacking_cases stop with hl | hl <;> simp [hl]
      rw [hreports, List.length_append, List.length_map, lookahead_nil]
      simp only [Evaluator.trailing, reports_nil, List.length_nil]
      omega
    | cons l rs =>
      obtain ⟨hl, hrs⟩ := List.forall_mem_cons.mp hls
      have hone := hcon.length_reports_le (Lexeme.token_ne_endOfInput hl)
      have hlater := ih hrs
      rw [List.tail_cons] at hlater
      rw [reports_append, reports_append, reports_ofLookahead, List.append_nil, List.length_append,
        List.length_cons]
      omega

inductive Closing (c : Config) (stop : Nat) : List Lexeme → List Diagnostic → Prop where
  | atEnd : Closing c stop [] (c.lacking stop ++ c.groups.map (.unterminatedGroup ·.opened stop))
  | single {l : Lexeme} {more : List Lexeme} {r : Diagnostic} :
      r.offset = l.start → Closing c stop (l :: more) [r]
  | refused {l : Lexeme} {more : List Lexeme} : l.token = .rightParen →
      Closing c stop (l :: more)
        [.unexpectedToken l.token.describe l.start, .trailingToken l.token.describe l.start]

theorem Closing.offset_eq {r : Diagnostic} (h : c.Closing stop ls late) (hr : r ∈ late) :
    r.offset = (lookahead stop ls).start := by
  cases h with
  | atEnd =>
    rcases List.mem_append.mp hr with hr | hr
    · rcases c.lacking_cases stop with hl | hl
      · simp [hl] at hr
      · rw [hl] at hr
        rw [List.mem_singleton.mp hr]
        rfl
    · obtain ⟨group, _, rfl⟩ := List.mem_map.mp hr
      rfl
  | single ho => rwa [List.mem_singleton.mp hr]
  | refused =>
    rcases List.mem_pair.mp hr with rfl | rfl <;> rfl

theorem pairwise_opened (hc : (c.positions stop ls).Pairwise (· < ·)) :
    (c.groups.map Group.opened).Pairwise (· > ·) := by
  obtain ⟨hopened, _, _⟩ := List.pairwise_append.mp hc
  exact List.pairwise_reverse.mp hopened

theorem Closing.nodup (h : c.Closing stop ls late) (hc : (c.positions stop ls).Pairwise (· < ·)) :
    late.Nodup := by
  cases h with
  | atEnd =>
    refine List.nodup_append.mpr ⟨?_, List.pairwise_map.mpr ?_, ?_⟩
    · rcases c.lacking_cases stop with hl | hl <;> simp [hl]
    · refine (List.pairwise_map.mp (pairwise_opened hc)).imp fun hgt he => ?_
      rw [Diagnostic.unterminatedGroup.injEq] at he
      exact Nat.ne_of_gt hgt he.1
    · intro r hr r' hr' he
      obtain ⟨group, _, rfl⟩ := List.mem_map.mp hr'
      rcases c.lacking_cases stop with hl | hl <;> simp [hl, he] at hr
  | single => simp
  | refused => simp

theorem Closing.at_end (h : c.Closing stop ls late)
    (hc : (c.positions stop ls).Pairwise (· < ·)) :
    ∃ (missing : List Diagnostic) (opened : List Nat),
      late.filter (·.offset = stop) = missing ++ opened.map (.unterminatedGroup · stop) ∧
      (missing = [] ∨ missing = [.unexpectedEnd stop]) ∧ opened.Pairwise (· > ·) := by
  have hoffset := fun r => h.offset_eq (r := r)
  cases h with
  | atEnd =>
    refine ⟨c.lacking stop, c.groups.map Group.opened, ?_, c.lacking_cases stop,
      pairwise_opened hc⟩
    rw [List.map_map, List.filter_eq_self.mpr]
    · rfl
    · exact fun r hr => decide_eq_true (hoffset r hr)
  | @single l more _ _ | @refused l more _ =>
    obtain ⟨_, hstarts, _⟩ := List.pairwise_append.mp hc
    have hlt : l.start < stop :=
      List.rel_of_pairwise_cons hstarts (mem_starts.mpr (.inr rfl))
    refine ⟨[], [], List.filter_eq_nil_iff.mpr fun r hr => ?_, .inl rfl, .nil⟩
    rw [hoffset r hr, decide_eq_true_eq]
    exact Nat.ne_of_lt hlt

theorem Closing.of_pair (h : c.Closing stop ls late) {r r' : Diagnostic}
    (hr : [r, r'].Sublist late) (ho : r.offset < stop) :
    late = [r, r'] ∧ lookahead stop ls ∈ ls ∧ (lookahead stop ls).token = .rightParen ∧
      r = .unexpectedToken (lookahead stop ls).token.describe (lookahead stop ls).start ∧
      r' = .trailingToken (lookahead stop ls).token.describe (lookahead stop ls).start := by
  have hoffset := h.offset_eq (hr.subset List.mem_cons_self)
  cases h with
  | atEnd =>
    rw [hoffset] at ho
    exact absurd ho (Nat.lt_irrefl _)
  | single => exact absurd hr.length_le (by simp)
  | refused hl =>
    obtain ⟨rfl, rfl⟩ : r = _ ∧ r' = _ := by simpa using hr.eq_of_length rfl
    exact ⟨rfl, List.mem_cons_self, hl, rfl, rfl⟩

theorem Finishes.closing (h : c.Finishes (lookahead stop ls) v events)
    (hls : ∀ l ∈ ls, l.isEnd = false) :
    c.Closing stop ls (reports events ++ reports (Evaluator.trailing (lookahead stop ls))) := by
  obtain ⟨hs, hg, hop⟩ := h
  rw [reports_append, reports_total, List.append_nil]
  cases ls with
  | nil =>
    have hlacking : reports _ = c.lacking stop := hs.reports_at_end rfl
    have hclosing := @Closing.atEnd c stop
    rwa [← hlacking, hg] at hclosing
  | cons l more =>
    have hend := Lexeme.token_ne_endOfInput (hls l List.mem_cons_self)
    obtain ⟨r, hr, ho⟩ := Evaluator.reports_trailing hend
    rw [lookahead_cons] at hs hop ⊢
    cases hs with
    | complete | skipped =>
      rw [hr]
      exact .single ho
    | missing _ hl =>
      rcases hl with hl | ⟨op, hl⟩
      · have hboth := @Closing.refused c stop l more hl
        simpa [Evaluator.trailing, hl] using hboth
      · exact absurd hl (hop op)
    | missingEnd _ hl => exact absurd hl hend

theorem Runs.reports_split (h : c.Runs stop ls v events rest) (hls : ∀ l ∈ ls, l.isEnd = false) :
    ∃ (before : List Lexeme) (d : Config) (early late : List Diagnostic), ls = before ++ rest ∧
      (d.positions stop rest).Sublist (c.positions stop ls) ∧
      (early.map Diagnostic.offset).Sublist (before.map Lexeme.start) ∧
      reports events ++ reports (Evaluator.trailing (lookahead stop rest)) = early ++ late ∧
      d.Closing stop rest late := by
  induction h with
  | @finished c ls v events hf =>
    exact ⟨[], c, [], _, rfl, List.Sublist.refl _, List.nil_sublist _, rfl, hf.closing hls⟩
  | @consumed c d ls rest v events later hcon hruns ih =>
    cases ls with
    | nil =>
      obtain ⟨rfl, hreports⟩ := (Runs.consumed hcon hruns).reports_at_end
      refine ⟨[], c, [], _, rfl, List.Sublist.refl _, List.nil_sublist _, rfl, ?_⟩
      rw [hreports]
      simpa [Evaluator.trailing] using @Closing.atEnd c stop
    | cons l rs =>
      obtain ⟨hl, hrs⟩ := List.forall_mem_cons.mp hls
      obtain ⟨before, d', early, late, hbefore, hpositions, hearly, hsplit, hlate⟩ := ih hrs
      refine ⟨l :: before, d', reports events ++ early, late, ?_,
        hpositions.trans hcon.positions_sublist, ?_, ?_, hlate⟩
      · rw [List.tail_cons] at hbefore
        rw [hbefore, List.cons_append]
      · rw [List.map_append, List.map_cons]
        exact (hcon.offsets_sublist (Lexeme.token_ne_endOfInput hl)).append hearly
      · rw [reports_append, reports_append, reports_ofLookahead, List.append_nil, List.append_assoc,
          hsplit, List.append_assoc]

end Config

def Diagnostic.opened? : Diagnostic → Option Nat
  | unterminatedGroup opened _ => some opened
  | _ => none

theorem Evaluator.opened_trailing (l : Lexeme) :
    (reports (trailing l)).filterMap Diagnostic.opened? = [] := by
  unfold trailing
  split <;> rfl

namespace Config

variable {c d : Config} {l : Lexeme} {v : Float} {events : List Event} {stop : Nat}
  {ls rest : List Lexeme}

theorem Supplies.opened_eq_nil (h : c.Supplies l v events) :
    (reports events).filterMap Diagnostic.opened? = [] := by
  cases h <;> rfl

theorem Consumes.opened_cases (h : c.Consumes l events d) :
    (reports events).filterMap Diagnostic.opened? = [] ∨
      ∃ group, c.groups = group :: d.groups ∧
        (reports events).filterMap Diagnostic.opened? = [group.opened] := by
  cases h with
  | number | opening | tooDeep | invalid | nested | matched | passed => exact .inl rfl
  | product hs | sum hs | closed hs => exact .inl (by simp [hs.opened_eq_nil])
  | @unclosed _ _ group _ hs hg =>
    refine .inr ⟨group, hg, ?_⟩
    simp [hs.opened_eq_nil, Diagnostic.opened?]

theorem Runs.opened_subperm (h : c.Runs stop ls v events rest) :
    ((reports events).filterMap Diagnostic.opened?).Subperm (c.positions stop ls) := by
  induction h with
  | finished hf =>
    obtain ⟨hs, _, _⟩ := hf
    simp [hs.opened_eq_nil]
  | @consumed c d ls rest v events later hcon _ ih =>
    simp only [reports_append, reports_ofLookahead, List.append_nil, List.filterMap_append]
    rcases hcon.opened_cases with hnone | ⟨group, hgroup, hone⟩
    · rw [hnone, List.nil_append]
      exact ih.trans hcon.positions_sublist.subperm
    · -- The group that is reported is left, so that no later report can be of it.
      have htail : (d.positions stop ls.tail).Sublist (d.positions stop ls) :=
        (starts_tail_sublist stop ls).append_left _
      rw [hone, List.singleton_append]
      refine ((List.subperm_cons _).mpr (ih.trans htail.subperm)).trans (List.Perm.subperm ?_)
      rw [positions, positions, hgroup, List.map_cons, List.reverse_cons, List.append_assoc]
      exact List.perm_middle.symm

theorem Supplies.trailingToken_notMem (h : c.Supplies l v events) (found : String) (offset : Nat) :
    Diagnostic.trailingToken found offset ∉ reports events := by
  cases h <;> simp

theorem Consumes.trailingToken_notMem (h : c.Consumes l events d) (found : String)
    (offset : Nat) : Diagnostic.trailingToken found offset ∉ reports events := by
  cases h with
  | product hs | sum hs | closed hs | unclosed hs =>
    simpa using hs.trailingToken_notMem found offset
  | _ => simp

theorem Runs.trailingToken_notMem (h : c.Runs stop ls v events rest) (found : String)
    (offset : Nat) : Diagnostic.trailingToken found offset ∉ reports events := by
  induction h with
  | finished hf =>
    obtain ⟨hs, _, _⟩ := hf
    simpa using hs.trailingToken_notMem found offset
  | consumed hcon _ ih => simpa using ⟨hcon.trailingToken_notMem found offset, ih⟩

end Config

/-- The reports made of `source` are parted at the lexeme where the expression ends, the first of
`rest`, which is looked at in the configuration `c`. -/
structure Parted (source : String) (c : Config) (rest : List Lexeme)
    (early late : List Diagnostic) : Prop where
  suffix : rest <:+ lexemesOf source
  current_eq : (Evaluator.ofString source).parse.2.current = lookahead source.utf8ByteSize rest
  diagnostics_eq : (Evaluator.ofString source).parse.2.diagnostics = early ++ late
  positions_lt : (c.positions source.utf8ByteSize rest).Pairwise (· < ·)
  offsets_lt : (early.map Diagnostic.offset ++ starts source.utf8ByteSize rest).Pairwise (· < ·)
  closing : c.Closing source.utf8ByteSize rest late

theorem exists_parted (source : String) : ∃ c rest early late, Parted source c rest early late := by
  obtain ⟨events, rest, hrun⟩ := exists_runOf source
  have hls : ∀ l ∈ lexemesOf source, l.isEnd = false := fun _ => mem_lexemesOf_isEnd
  obtain ⟨before, c, early, late, hbefore, hpositions, hearly, hsplit, hclosing⟩ :=
    hrun.runs.reports_split hls
  have hstarts := pairwise_lexemesOf source
  refine ⟨c, rest, early, late, ⟨before, hbefore.symm⟩, hrun.current_eq, ?_,
    hstarts.sublist hpositions, ?_, hclosing⟩
  · rw [hrun.diagnostics_eq, hsplit]
  · rw [hbefore, starts, List.map_append, List.append_assoc] at hstarts
    exact hstarts.sublist (hearly.append_right _)

namespace Parted

variable {source : String} {c : Config} {rest : List Lexeme} {early late : List Diagnostic}
  {d d' : Diagnostic}

theorem offset_lt (h : Parted source c rest early late) (hd : d ∈ early) {offset : Nat}
    (ho : offset ∈ starts source.utf8ByteSize rest) : d.offset < offset := by
  obtain ⟨_, _, hlt⟩ := List.pairwise_append.mp h.offsets_lt
  exact hlt _ (List.mem_map_of_mem hd) offset ho

theorem offset_lt_late (h : Parted source c rest early late) (hd : d ∈ early) (hd' : d' ∈ late) :
    d.offset < d'.offset := by
  rw [h.closing.offset_eq hd']
  exact h.offset_lt hd (lookahead_start_mem _ _)

theorem offset_le (h : Parted source c rest early late) :
    (early ++ late).Pairwise fun d d' => d.offset ≤ d'.offset := by
  obtain ⟨hearly, _, _⟩ := List.pairwise_append.mp h.offsets_lt
  refine List.pairwise_append.mpr ⟨?_, ?_, ?_⟩
  · exact (List.pairwise_map.mp hearly).imp Nat.le_of_lt
  · exact List.pairwise_of_forall_mem_list fun d hd d' hd' =>
      Nat.le_of_eq ((h.closing.offset_eq hd).trans (h.closing.offset_eq hd').symm)
  · exact fun d hd d' hd' => Nat.le_of_lt (h.offset_lt_late hd hd')

theorem sublist_late (h : Parted source c rest early late) (hd : [d, d'].Sublist (early ++ late))
    (ho : d.offset = d'.offset) : [d, d'].Sublist late := by
  obtain ⟨front, back, hsplit, hfront, hback⟩ := List.sublist_append_iff.mp hd
  rcases front with _ | ⟨q, _ | ⟨q', more⟩⟩
  · rw [List.nil_append] at hsplit
    rwa [hsplit]
  · simp only [List.cons_append, List.nil_append, List.cons.injEq] at hsplit
    obtain ⟨rfl, rfl⟩ := hsplit
    have hlt := h.offset_lt_late (List.singleton_sublist.mp hfront)
      (List.singleton_sublist.mp hback)
    exact absurd ho (Nat.ne_of_lt hlt)
  · simp only [List.cons_append, List.cons.injEq] at hsplit
    obtain ⟨rfl, rfl, _⟩ := hsplit
    obtain ⟨hearly, _, _⟩ := List.pairwise_append.mp h.offsets_lt
    have hpair := hearly.sublist (hfront.map Diagnostic.offset)
    exact absurd ho (Nat.ne_of_lt (List.rel_of_pairwise_cons hpair List.mem_cons_self))

theorem nodup (h : Parted source c rest early late) : (early ++ late).Nodup := by
  refine List.pairwise_iff_forall_sublist.mpr fun hd he => ?_
  have hlate := h.sublist_late hd (congrArg Diagnostic.offset he)
  exact List.pairwise_iff_forall_sublist.mp (h.closing.nodup h.positions_lt) hlate he

theorem same_offset (h : Parted source c rest early late) (hd : [d, d'].Sublist (early ++ late))
    (ho : d.offset = d'.offset) (hlt : d.offset < source.utf8ByteSize) :
    late = [d, d'] ∧ ∃ f b, Reaches (.ofString source) .initial f b ∧ b.depth = 0 ∧
      f.current ∈ lexemesOf source ∧ f.current.token = .rightParen ∧
      d = .unexpectedToken f.current.token.describe f.current.start ∧
      d' = .trailingToken f.current.token.describe f.current.start := by
  obtain ⟨hpair, hmem, hparen, hfound⟩ := h.closing.of_pair (h.sublist_late hd ho) hlt
  obtain ⟨f, b, events, hreach, _, hparse, _, hdepth⟩ :=
    parse_reaches (Evaluator.ready_ofString source).depth_eq
  have hcurrent : f.current = lookahead source.utf8ByteSize rest := by
    rw [← h.current_eq, hparse]
    rfl
  rw [← hcurrent] at hmem hparen hfound
  exact ⟨hpair, f, b, hreach, hdepth, h.suffix.subset hmem, hparen, hfound⟩

theorem filter_at_end (h : Parted source c rest early late) :
    (early ++ late).filter (·.offset = source.utf8ByteSize) =
      late.filter (·.offset = source.utf8ByteSize) := by
  rw [List.filter_append, List.filter_eq_nil_iff.mpr, List.nil_append]
  intro d hd
  rw [decide_eq_true_eq]
  exact Nat.ne_of_lt (h.offset_lt hd (mem_starts.mpr (.inr rfl)))

end Parted

theorem opened_nodup (source : String) :
    ((Evaluator.ofString source).parse.2.diagnostics.filterMap Diagnostic.opened?).Nodup := by
  obtain ⟨events, rest, hrun⟩ := exists_runOf source
  obtain ⟨opened, hperm, hsub⟩ := hrun.runs.opened_subperm
  have hlt : opened.Pairwise (· < ·) := (pairwise_lexemesOf source).sublist hsub
  rw [hrun.diagnostics_eq, List.filterMap_append, Evaluator.opened_trailing, List.append_nil]
  exact hperm.nodup_iff.mp (hlt.imp Nat.ne_of_lt)

/-- What is reported of `source` goes from left to right, and nothing is reported twice. -/
structure Orderly (source : String) (ds : List Diagnostic) : Prop where
  offset_le : ds.Pairwise fun d d' => d.offset ≤ d'.offset
  first_le : ∀ d, tryEvaluate source = .error d → ∀ d' ∈ ds, d.offset ≤ d'.offset
  nodup : ds.Nodup
  same_offset : ∀ d d', [d, d'].Sublist ds → d.offset = d'.offset →
    d.offset < source.utf8ByteSize → (∃ front, ds = front ++ [d, d']) ∧
    ∃ f c, Reaches (.ofString source) .initial f c ∧ c.depth = 0 ∧
      f.current ∈ lexemesOf source ∧ f.current.token = .rightParen ∧
      d = .unexpectedToken f.current.token.describe f.current.start ∧
      d' = .trailingToken f.current.token.describe f.current.start
  at_end : ∃ (missing : List Diagnostic) (opened : List Nat),
    ds.filter (·.offset = source.utf8ByteSize) =
      missing ++ opened.map (.unterminatedGroup · source.utf8ByteSize) ∧
    (missing = [] ∨ missing = [.unexpectedEnd source.utf8ByteSize]) ∧ opened.Pairwise (· > ·)
  opened_nodup : (ds.filterMap Diagnostic.opened?).Nodup
  trailing_last : ∃ own, ds =
      own ++ reports (Evaluator.trailing (Evaluator.ofString source).parse.2.current) ∧
    (reports (Evaluator.trailing (Evaluator.ofString source).parse.2.current)).length ≤ 1 ∧
    ∀ found offset, Diagnostic.trailingToken found offset ∉ own
  length_le : ds.length ≤ (lexemesOf source).length + 1

theorem diagnostics_orderly (source : String) :
    Orderly source (Evaluator.ofString source).parse.2.diagnostics := by
  obtain ⟨c, rest, early, late, h⟩ := exists_parted source
  obtain ⟨events, after, hrun⟩ := exists_runOf source
  have hown := hrun.diagnostics_eq
  have hcurrent : (Evaluator.ofString source).parse.2.current =
      lookahead source.utf8ByteSize after := hrun.current_eq
  have hle : (Evaluator.ofString source).parse.2.diagnostics.Pairwise
      fun d d' => d.offset ≤ d'.offset := by
    rw [h.diagnostics_eq]
    exact h.offset_le
  refine ⟨hle, ?_, ?_, ?_, ?_, opened_nodup source, ?_, ?_⟩
  · intro d hd d' hd'
    obtain ⟨more, hds⟩ := List.head?_eq_some_iff.mp (tryEvaluate_eq_error_iff.mp hd)
    rw [hds] at hle hd'
    rcases List.mem_cons.mp hd' with rfl | hd'
    · exact Nat.le_refl _
    · exact List.rel_of_pairwise_cons hle hd'
  · rw [h.diagnostics_eq]
    exact h.nodup
  · intro d d' hd ho hlt
    rw [h.diagnostics_eq] at hd
    obtain ⟨hlate, hmet⟩ := h.same_offset hd ho hlt
    exact ⟨⟨early, by rw [h.diagnostics_eq, hlate]⟩, hmet⟩
  · rw [h.diagnostics_eq, h.filter_at_end]
    exact h.closing.at_end h.positions_lt
  · rw [← hcurrent] at hown
    exact ⟨reports events, hown, Evaluator.length_trailing_le _, hrun.runs.trailingToken_notMem⟩
  · rw [hown, List.length_append]
    exact hrun.runs.length_reports_le fun _ => mem_lexemesOf_isEnd

example : (Evaluator.ofString "1-)").parse.2.diagnostics =
    [.unexpectedToken "')'" 2, .trailingToken "')'" 2] := by
  decide +kernel

example : (Evaluator.ofString "(+(").parse.2.diagnostics =
    [.unexpectedToken "'+'" 1, .unexpectedEnd 3, .unterminatedGroup 2 3,
      .unterminatedGroup 0 3] := by
  decide +kernel

end Calculator
