import Calculator.Proofs.Mending

namespace Calculator

def Diagnostic.deepOffset? : Diagnostic → Option Nat
  | nestingTooDeep _ offset => some offset
  | _ => none

def deepOffsets (ds : List Diagnostic) : List Nat :=
  ds.filterMap Diagnostic.deepOffset?

theorem deepOffsets_append (ds later : List Diagnostic) :
    deepOffsets (ds ++ later) = deepOffsets ds ++ deepOffsets later :=
  List.filterMap_append

theorem mem_deepOffsets {offset : Nat} {ds : List Diagnostic} :
    offset ∈ deepOffsets ds ↔ ∃ limit, .nestingTooDeep limit offset ∈ ds := by
  rw [deepOffsets, List.mem_filterMap]
  constructor
  · rintro ⟨d, hd, ho⟩
    cases d with
    | nestingTooDeep limit => cases ho; exact ⟨limit, hd⟩
    | _ => cases ho
  · rintro ⟨limit, hd⟩
    exact ⟨_, hd, rfl⟩

/-- The lexemes outside the groups that begin at an offset of `deep`. -/
def outside (deep : List Nat) : List Lexeme → List Lexeme
  | [] => []
  | l :: ls => if l.start ∈ deep then outside deep (behindGroup 1 ls) else l :: outside deep ls
termination_by ls => ls.length
decreasing_by
  · exact Nat.lt_succ_of_le (behindGroup_suffix 1 ls).length_le
  · exact Nat.lt_succ_self _

@[simp]
theorem outside_nil (deep : List Nat) : outside deep [] = [] := by
  rw [outside]

theorem outside_keep {deep : List Nat} {l : Lexeme} (h : l.start ∉ deep) (ls : List Lexeme) :
    outside deep (l :: ls) = l :: outside deep ls := by
  rw [outside, if_neg h]

theorem outside_skip {deep : List Nat} {l : Lexeme} (h : l.start ∈ deep) (ls : List Lexeme) :
    outside deep (l :: ls) = outside deep (behindGroup 1 ls) := by
  rw [outside, if_pos h]

theorem operators_drop {l : Lexeme} (hl : ∀ op, l.token ≠ .operator op) (ls : List Lexeme) :
    operators (l :: ls) = operators ls := by
  apply List.filter_cons_of_neg
  cases ht : l.token with
  | operator op => exact absurd ht (hl op)
  | _ => simp [Token.isOperator]

theorem operators_cons_congr {ls rs : List Lexeme} (h : operators ls = operators rs) (l : Lexeme) :
    operators (l :: ls) = operators (l :: rs) := by
  rw [← List.singleton_append, operators_append, h, ← operators_append, List.singleton_append]

theorem Diagnostic.operators_insertion (d : Diagnostic) (ls : List Lexeme) :
    operators (d.insertion ++ ls) = operators ls := by
  cases d with
  | trailingToken => rfl
  | _ => exact operators_drop (by simp [Lexeme.zero, Lexeme.closing]) ls

theorem operators_mend_nil (last ds : List Diagnostic) : operators (mend last [] ds) = [] := by
  induction ds with
  | nil => rw [mend]; rfl
  | cons d ds ih => rw [mend, d.operators_insertion, ih]

namespace Config

theorem unskipped_nil (c : Config) : c.unskipped [] = [] := by
  cases hc : c.phase <;> simp only [unskipped, hc, behindGroup]

variable {c d : Config} {l : Lexeme} {ls read : List Lexeme} {v : Float} {events : List Event}
  {last ds : List Diagnostic} {deep : List Nat}

theorem Supplies.unskipped_eq (h : c.Supplies l v events) (hl : l.isEnd = false)
    (ls : List Lexeme) : c.unskipped ls = ls := by
  apply Config.unskipped_eq
  intro n hn
  cases h with
  | complete hc | missing hc | missingEnd hc => rw [hc] at hn; cases hn
  | skipped _ he => exact Lexeme.token_ne_endOfInput hl he

theorem Supplies.operators_mend (h : c.Supplies l v events) :
    operators (mend last (l :: ls) (reports events ++ ds)) =
      operators (mend last (l :: ls) ds) := by
  cases h with
  | complete | skipped => rfl
  | missing | missingEnd =>
    rw [reports_reported, reports_nil, List.singleton_append, mend_edit_cons rfl,
      Diagnostic.operators_insertion]
    rfl

theorem Consumes.not_blocks (h : c.Consumes l events d) (hd : ∀ n, d.phase ≠ .skipping n) :
    ¬ c.Blocks l := by
  rintro ⟨hc, hl, hdepth⟩
  obtain ⟨rfl, _⟩ := h.unique (.tooDeep hc hl hdepth)
  exact hd 1 rfl

theorem Consumes.operators_mend (h : c.Consumes l events d) (hl : l.isEnd = false)
    (hkeep : mend last (l :: ls) ds = l :: mend last ls ds) (hdeep : l.start ∈ deep ↔ c.Blocks l)
    (hrest : operators (mend last (d.unskipped ls) ds) =
      operators (outside deep (d.unskipped read))) :
    operators (mend last (c.unskipped (l :: ls)) (reports events ++ ds)) =
      operators (outside deep (c.unskipped (l :: read))) := by
  have kept (hd : ∀ n, d.phase ≠ .skipping n) :
      outside deep (l :: read) = l :: outside deep read ∧
        operators (mend last ls ds) = operators (outside deep read) := by
    rw [d.unskipped_eq hd, d.unskipped_eq hd] at hrest
    exact ⟨outside_keep (mt hdeep.mp (h.not_blocks hd)) read, hrest⟩
  cases h with
  | number hc | opening hc =>
    obtain ⟨hout, hops⟩ := kept (by simp)
    rw [unskipped_eq (by simp [hc]), unskipped_eq (by simp [hc]), reports_nil, List.nil_append,
      hkeep, hout, operators_cons_congr hops]
  | tooDeep hc htoken hdepth =>
    rw [unskipped_eq (by simp [hc]), unskipped_eq (by simp [hc]), reports_reported, reports_nil,
      List.singleton_append, mend_edit_cons rfl, Diagnostic.operators_insertion,
      outside_skip (hdeep.mpr ⟨hc, htoken, hdepth⟩)]
    exact hrest
  | invalid hc htoken =>
    obtain ⟨hout, hops⟩ := kept (by simp)
    rw [unskipped_eq (by simp [hc]), unskipped_eq (by simp [hc]), reports_reported, reports_nil,
      List.singleton_append, mend_edit_cons rfl, Diagnostic.operators_insertion, hout,
      operators_drop (by simp [htoken])]
    exact hops
  | product hs | sum hs | closed hs =>
    obtain ⟨hout, hops⟩ := kept (by simp)
    rw [hs.unskipped_eq hl, hs.unskipped_eq hl, reports_append, hout]
    simp only [reports_settle, reports_total, List.append_nil]
    rw [hs.operators_mend, hkeep, operators_cons_congr hops]
  | unclosed hs _ _ hop =>
    obtain ⟨hout, hops⟩ := kept (by simp)
    rw [hs.unskipped_eq hl, hs.unskipped_eq hl, reports_append, reports_append, reports_total,
      List.append_nil, List.append_assoc, hs.operators_mend, reports_reported, reports_nil,
      List.singleton_append, mend_edit_cons rfl, Diagnostic.operators_insertion, hout,
      operators_drop hop]
    exact hops
  | nested hc htoken => simpa [unskipped, hc, behindGroup, htoken] using hrest
  | @matched n hc htoken =>
    by_cases hn : n - 1 = 0
    · simpa [unskipped, hc, behindGroup, htoken, hn] using hrest
    · simpa [unskipped, hc, behindGroup, htoken, hn] using hrest
  | passed hc hlp hrp =>
    simpa [unskipped, hc, behindGroup, hlp, hrp] using hrest

theorem Consumes.blocks_iff (h : c.Consumes l events d) :
    c.Blocks l ↔ ∃ limit, .nestingTooDeep limit l.start ∈ reports events := by
  constructor
  · intro hb
    rw [hb.reports_eq h]
    exact ⟨maxDepth, List.mem_singleton_self _⟩
  · rintro ⟨limit, hr⟩
    exact (h.fits hr).2.2

end Config

theorem Config.Runs.operators_mend {stop : Nat} {c : Config} {ls rest : List Lexeme} {v : Float}
    {events : List Event} {deep : List Nat} (h : c.Runs stop ls v events rest)
    (hls : ∀ l ∈ ls, l.isEnd = false) (hsorted : (starts stop ls).Pairwise (· < ·))
    (hdeep : ∀ l ∈ ls, l.start ∈ deep ↔ ∃ limit, .nestingTooDeep limit l.start ∈ reports events) :
    ∃ read, ls = read ++ rest ∧
      operators (mend (reports (Evaluator.trailing (lookahead stop rest))) (c.unskipped ls)
        (reports events)) = operators (outside deep (c.unskipped read)) := by
  induction h with
  | @finished c ls v events hf =>
    refine ⟨[], rfl, ?_⟩
    rw [c.unskipped_nil, outside_nil]
    cases ls with
    | nil =>
      rw [c.unskipped_nil, operators_mend_nil]
      rfl
    | cons l ls =>
      obtain ⟨hs, _, _⟩ := hf
      rw [lookahead_cons] at hs
      rw [reports_append, reports_total, hs.unskipped_eq (hls l List.mem_cons_self),
        hs.operators_mend, mend_last (Evaluator.nil_or_trailing_offset hls)]
  | @consumed c d ls rest v events later hc hr ih =>
    cases ls with
    | nil =>
      obtain ⟨read, hread, _⟩ := ih (by simp) (by simp) (by simp)
      obtain ⟨rfl, rfl⟩ := List.append_eq_nil_iff.mp hread.symm
      refine ⟨[], rfl, ?_⟩
      rw [c.unskipped_nil, operators_mend_nil, outside_nil]
      rfl
    | cons l ls =>
      rw [lookahead_cons] at hc
      rw [List.tail_cons] at hr ih
      rw [List.tail_cons, reports_append, reports_append, reports_ofLookahead, List.append_nil]
      rw [List.tail_cons, reports_append, reports_append, reports_ofLookahead, List.append_nil]
        at hdeep
      have hkeep := mend_keep_of_starts hsorted fun r hr' =>
        hr.offset_mem_starts (List.mem_append.mp hr')
      rw [starts_cons, List.pairwise_cons] at hsorted
      have hl : l.start ∈ deep ↔ c.Blocks l := by
        rw [hdeep l List.mem_cons_self, hc.blocks_iff]
        refine exists_congr fun limit => ⟨fun hm => ?_, List.mem_append_left _⟩
        refine (List.mem_append.mp hm).resolve_right fun hm => ?_
        exact Nat.lt_irrefl _ (hsorted.1 _ (hr.offset_mem_starts (.inl hm)))
      have htail (m : Lexeme) (hm : m ∈ ls) :
          m.start ∈ deep ↔ ∃ limit, .nestingTooDeep limit m.start ∈ reports later := by
        rw [hdeep m (List.mem_cons_of_mem l hm)]
        refine exists_congr fun limit => ⟨fun hd => ?_, List.mem_append_right _⟩
        refine (List.mem_append.mp hd).resolve_left fun hd => ?_
        have hlt := hsorted.1 m.start (mem_starts.mpr (.inl ⟨m, hm, rfl⟩))
        exact Nat.ne_of_gt hlt (hc.fits hd).offset_eq
      obtain ⟨read, rfl, hops⟩ := ih (fun m hm => hls m (List.mem_cons_of_mem l hm)) hsorted.2 htail
      exact ⟨l :: read, rfl, hc.operators_mend (hls l List.mem_cons_self) hkeep hl hops⟩

end Calculator
