import Calculator.Grammar
import Calculator.Proofs.Steps

/-!
A configuration stands for the lexemes that it has accepted: operators that wait, in groups that
are open, and perhaps an operand. Accepting a lexeme keeps this so, whatever has been read can be
completed to a sentence, and where nothing waits it is one.
-/

namespace Calculator

inductive Leads (limit : Nat) : List Group → Level → Nat → List Lexeme → Prop where
  | start : Leads limit [] ⟨none, none⟩ limit []
  | opening {groups : List Group} {level : Level} {depth : Nat} {ls : List Lexeme} {l : Lexeme} :
      Leads limit groups level (depth + 1) ls → l.token = .leftParen →
      Leads limit (⟨l.start, level⟩ :: groups) ⟨none, none⟩ depth (ls ++ [l])
  | sum {groups : List Group} {depth : Nat} {ls es : List Lexeme} {l : Lexeme} {op : Operator}
      {e : Expr} :
      Leads limit groups ⟨none, none⟩ depth ls → Derives .expression depth es e →
      l.token = .operator op → op = .add ∨ op = .sub →
      Leads limit groups ⟨some ⟨e.value, op⟩, none⟩ depth (ls ++ (es ++ [l]))
  | product {groups : List Group} {sum : Option Pending} {depth : Nat} {ls es : List Lexeme}
      {l : Lexeme} {op : Operator} {e : Expr} :
      Leads limit groups ⟨sum, none⟩ depth ls → Derives .term depth es e →
      l.token = .operator op → op = .mul ∨ op = .div →
      Leads limit groups ⟨sum, some ⟨e.value, op⟩⟩ depth (ls ++ (es ++ [l]))

namespace Leads

variable {limit depth : Nat} {groups : List Group} {level : Level} {ls : List Lexeme}

theorem length_groups (h : Leads limit groups level depth ls) :
    groups.length + depth = limit := by
  induction h with
  | start => exact Nat.zero_add _
  | opening _ _ ih =>
    rw [List.length_cons]
    omega
  | sum _ _ _ _ ih | product _ _ _ _ ih => exact ih

theorem term {sum product : Option Pending} {fs : List Lexeme} {f : Expr}
    (h : Leads limit groups ⟨sum, product⟩ depth ls) (hf : Derives .factor depth fs f) :
    ∃ base es e, Leads limit groups ⟨sum, none⟩ depth base ∧ Derives .term depth es e ∧
      e.value = (settle product f.value).1 ∧ ls ++ fs = base ++ es := by
  cases product with
  | none => exact ⟨ls, fs, f, h, .factor hf, rfl, rfl⟩
  | some p =>
    cases h with
    | product hbase he hl hop =>
      exact ⟨_, _, _, hbase, .product hl hop he hf, rfl, by simp⟩

theorem expression {sum : Option Pending} {fs : List Lexeme} {f : Expr}
    (h : Leads limit groups ⟨sum, none⟩ depth ls) (hf : Derives .term depth fs f) :
    ∃ base es e, Leads limit groups ⟨none, none⟩ depth base ∧ Derives .expression depth es e ∧
      e.value = (settle sum f.value).1 ∧ ls ++ fs = base ++ es := by
  cases sum with
  | none => exact ⟨ls, fs, f, h, .term hf, rfl, rfl⟩
  | some p =>
    cases h with
    | sum hbase he hl hop =>
      exact ⟨_, _, _, hbase, .sum hl hop he hf, rfl, by simp⟩

theorem total {fs : List Lexeme} {f : Expr} (h : Leads limit groups level depth ls)
    (hf : Derives .factor depth fs f) :
    ∃ base es e, Leads limit groups ⟨none, none⟩ depth base ∧ Derives .expression depth es e ∧
      e.value = (level.total f.value).1 ∧ ls ++ fs = base ++ es := by
  obtain ⟨base, ts, t, hbase, ht, hvt, hts⟩ := h.term hf
  obtain ⟨base', es, e, hbase', he, hve, hes⟩ := hbase.expression ht
  refine ⟨base', es, e, hbase', he, ?_, hts.trans hes⟩
  rw [hve, hvt]
  rfl

theorem eq_start (h : Leads limit [] ⟨none, none⟩ depth ls) : ls = [] ∧ depth = limit := by
  cases h
  exact ⟨rfl, rfl⟩

theorem closed {group : Group} {es : List Lexeme} {e : Expr} {l : Lexeme}
    (h : Leads limit (group :: groups) ⟨none, none⟩ depth ls) (he : Derives .expression depth es e)
    (hl : l.token = .rightParen) :
    ∃ outer fs, Leads limit groups group.outer (depth + 1) outer ∧
      Derives .factor (depth + 1) fs e ∧ ls ++ es ++ [l] = outer ++ fs := by
  cases h with
  | @opening _ _ _ outer opening houter ho =>
    exact ⟨outer, _, houter, .group ho hl he, by simp⟩

theorem completed {fs : List Lexeme} {f : Expr} (h : Leads limit groups level depth ls)
    (hf : Derives .factor depth fs f) :
    ∃ more e, Derives .expression limit (ls ++ fs ++ more) e := by
  induction groups generalizing level depth ls fs f with
  | nil =>
    obtain ⟨base, es, e, hbase, he, _, hes⟩ := h.total hf
    obtain ⟨rfl, rfl⟩ := hbase.eq_start
    exact ⟨[], e, by simpa [hes] using he⟩
  | cons group groups ih =>
    obtain ⟨base, es, e, hbase, he, _, hes⟩ := h.total hf
    obtain ⟨outer, gs, houter, hg, hgs⟩ := hbase.closed he (l := ⟨.rightParen, 0, ")"⟩) rfl
    obtain ⟨more, e', he'⟩ := ih houter hg
    refine ⟨⟨.rightParen, 0, ")"⟩ :: more, e', ?_⟩
    rw [hes, List.append_cons, hgs]
    exact he'

end Leads

inductive Spells (limit : Nat) (c : Config) : List Lexeme → Prop where
  | operand {depth : Nat} {ls : List Lexeme} :
      c.phase = .operand → c.depth + depth = limit → Leads limit c.groups c.level depth ls →
      Spells limit c ls
  | complete {depth : Nat} {ls fs : List Lexeme} {f : Expr} :
      c.phase = .complete f.value → c.depth + depth = limit →
      Leads limit c.groups c.level depth ls → Derives .factor depth fs f →
      Spells limit c (ls ++ fs)

theorem spells_initial (limit : Nat) : Spells limit .initial [] :=
  .operand rfl (Nat.zero_add _) .start

def Config.Accepts (c : Config) (l : Lexeme) (d : Config) : Prop :=
  ∃ events, c.Consumes l events d ∧ reports events = []

namespace Spells

variable {limit : Nat} {c d : Config} {ls : List Lexeme}

theorem completed (h : Spells limit c ls) :
    ∃ more e, Derives .expression limit (ls ++ more) e := by
  cases h with
  | operand _ _ hls =>
    obtain ⟨more, e, he⟩ := hls.completed (.number (l := ⟨.number 0, 0, "0"⟩) rfl)
    rw [List.append_assoc] at he
    exact ⟨_, e, he⟩
  | complete _ _ hls hf => exact hls.completed hf

theorem supplied {l : Lexeme} {v : Float} {events : List Event} (h : Spells limit c ls)
    (hs : c.Supplies l v events) (hr : reports events = []) :
    ∃ depth base fs f, c.depth + depth = limit ∧ Leads limit c.groups c.level depth base ∧
      Derives .factor depth fs f ∧ f.value = v ∧ ls = base ++ fs := by
  cases hs with
  | complete hc =>
    cases h with
    | operand ho => simp [hc] at ho
    | complete hc' hdepth hls hf =>
      rw [hc', Phase.complete.injEq] at hc
      exact ⟨_, _, _, _, hdepth, hls, hf, hc, rfl⟩
  | missing | missingEnd => simp at hr
  | skipped hc => cases h <;> simp_all

theorem accepted {l : Lexeme} (h : Spells limit c ls) (hlimit : maxDepth ≤ limit)
    (ha : c.Accepts l d) : Spells limit d (ls ++ [l]) := by
  obtain ⟨events, hc, hr⟩ := ha
  cases hc with
  | number hc hl =>
    cases h with
    | operand _ hdepth hls => exact .complete rfl hdepth hls (.number hl)
    | complete hc' => simp [hc'] at hc
  | opening hc hl hd =>
    cases h with
    | @operand depth _ _ hdepth hls =>
      obtain ⟨inner, rfl⟩ : ∃ inner, depth = inner + 1 := ⟨depth - 1, by omega⟩
      exact .operand rfl (by simp only; omega) (.opening hls hl)
    | complete hc' => simp [hc'] at hc
  | tooDeep | invalid | unclosed => simp at hr
  | product hs hl hop =>
    obtain ⟨depth, base, fs, f, hdepth, hls, hf, rfl, rfl⟩ := h.supplied hs (by simpa using hr)
    obtain ⟨base', es, e, hbase, he, hv, hes⟩ := hls.term hf
    rw [hes, List.append_assoc, ← hv]
    exact .operand rfl hdepth (.product hbase he hl hop)
  | sum hs hl hop =>
    obtain ⟨depth, base, fs, f, hdepth, hls, hf, rfl, rfl⟩ := h.supplied hs (by simpa using hr)
    obtain ⟨base', es, e, hbase, he, hv, hes⟩ := hls.total hf
    rw [hes, List.append_assoc, ← hv]
    exact .operand rfl hdepth (.sum hbase he hl hop)
  | closed hs hg hl =>
    obtain ⟨depth, base, fs, f, hdepth, hls, hf, rfl, rfl⟩ := h.supplied hs (by simpa using hr)
    obtain ⟨base', es, e, hbase, he, hv, hes⟩ := hls.total hf
    have hlength := hbase.length_groups
    rw [hg] at hbase hlength
    obtain ⟨outer, gs, houter, hgs, hcs⟩ := hbase.closed he hl
    rw [hes, hcs, ← hv]
    rw [List.length_cons] at hlength
    exact .complete rfl (by simp only; omega) houter hgs
  | nested hc | matched hc | passed hc => cases h <;> simp_all

theorem finished {l : Lexeme} {v : Float} {events : List Event} (h : Spells limit c ls)
    (hf : c.Finishes l v events) (hr : reports events = []) :
    ∃ e, Derives .expression limit ls e ∧ e.value = v := by
  obtain ⟨hs, hg, _⟩ := hf
  obtain ⟨depth, base, fs, f, hdepth, hls, hf, rfl, rfl⟩ := h.supplied hs (by simpa using hr)
  obtain ⟨base', es, e, hbase, he, hv, hes⟩ := hls.total hf
  rw [hg] at hbase
  obtain ⟨rfl, rfl⟩ := hbase.eq_start
  rw [hes]
  exact ⟨e, he, hv⟩

end Spells

end Calculator
