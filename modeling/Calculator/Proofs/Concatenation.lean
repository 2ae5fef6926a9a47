import Calculator.Proofs.Tokenization

namespace Calculator

structure View where
  token : Token
  span : Nat × Nat
  text : String
  deriving DecidableEq, Repr

def View.shift (k : Nat) (v : View) : View :=
  { v with span := (v.span.1 + k, v.span.2 + k) }

def Lexeme.view (l : Lexeme) : View :=
  ⟨l.token, (l.start, l.stop), l.text⟩

theorem Lexeme.view_shift (k : Nat) (l : Lexeme) : (l.shift k).view = l.view.shift k := by
  rw [view, stop_shift]
  rfl

theorem Lexeme.view_injective : Function.Injective view := by
  intro l m h
  simp only [view, View.mk.injEq, Prod.mk.injEq] at h
  obtain ⟨htoken, ⟨hstart, _⟩, htext⟩ := h
  obtain ⟨token, start, text⟩ := l
  simp only at htoken hstart htext
  rw [htoken, hstart, htext]

namespace Tokenizer

def view (t : Tokenizer) : View :=
  ⟨t.next.1.token, t.next.2.span, t.next.2.text⟩

def views (t : Tokenizer) : List View :=
  if _ : t.next.1.isEnd then [] else t.view :: t.next.2.views
termination_by t.ahead.length
decreasing_by exact t.next_ahead_lt (by simp_all)

theorem views_eq (t : Tokenizer) : t.views = t.lexemes.map Lexeme.view := by
  induction t using lexemes.induct with
  | case1 t he => rw [views, dif_pos he, lexemes_of_isEnd he, List.map_nil]
  | case2 t he ih =>
    rw [views, dif_neg he, ih]
    rw [Bool.not_eq_true] at he
    rw [lexemes_of_not_isEnd he]
    rfl

theorem view_shift (k : Nat) (t : Tokenizer) : (t.shift k).view = t.view.shift k := by
  change (t.shift k).next.1.view = t.next.1.view.shift k
  rw [next_shift, Lexeme.view_shift]

theorem after_shift (k : Nat) (t : Tokenizer) (n : Nat) :
    (t.shift k).after n = (t.after n).shift k := by
  induction n generalizing t with
  | zero => rfl
  | succ n ih => rw [after_succ, next_shift, ih, after_succ]

theorem after_next_congr {t u : Tokenizer} (h : t.next = u.next) (n : Nat) :
    (t.after n).next = (u.after n).next := by
  cases n with
  | zero => exact h
  | succ n => rw [after_succ, after_succ, h]

theorem exists_fresh (source : String) (pulls : Nat) :
    let t := (ofString source).after pulls
    ∃ before after, source = before ++ after ∧ before.utf8ByteSize = t.cursor ∧
      ∀ n, (t.after n).next = (((ofString after).after n).shift t.cursor).next := by
  intro t
  obtain ⟨read, hahead, hcursor⟩ := (ofString source).after_ahead pulls
  refine ⟨String.ofList read, String.ofList t.ahead, ?_, ?_, fun n => ?_⟩
  · rw [← String.ofList_append, ← hahead]
    exact String.ofList_toList.symm
  · rw [hcursor]
    exact (Nat.zero_add _).symm
  · rw [← after_shift]
    apply after_next_congr
    change _ = (Tokenizer.mk (String.ofList t.ahead).toList (0 + t.cursor) none).next
    rw [String.toList_ofList, Nat.zero_add]
    rfl

end Tokenizer

def viewsOf (source : String) : List View :=
  (Tokenizer.ofString source).views

theorem viewsOf_eq (source : String) : viewsOf source = (lexemesOf source).map Lexeme.view :=
  Tokenizer.views_eq _

theorem LaidOut.number_at_end {offset : Nat} {cs : List Char} {ls : List Lexeme}
    (h : LaidOut offset cs ls) {c : Char} (hc : c ∈ cs.getLast?) (hdigit : c.isDigit = true) :
    ∃ l ∈ ls, (∃ v, l.token = .number v) ∧ l.stop = offset + byteLength cs := by
  induction h with
  | blanks hblank =>
    have hfalse := isDigit_of_isBlank (hblank c (List.mem_of_getLast? hc))
    rw [hdigit] at hfalse
    cases hfalse
  | @lexeme offset blanks text rest t ls _ ht _ _ ih =>
    rw [List.getLast?_append_of_ne_nil _ (by simp [ht.ne_nil])] at hc
    cases rest with
    | nil =>
      rw [List.append_nil] at hc ⊢
      refine ⟨_, List.mem_cons_self, ht.number_of_isDigit (List.mem_of_getLast? hc) hdigit, ?_⟩
      rw [byteLength_append, ← Nat.add_assoc]
      rfl
    | cons d rest =>
      rw [List.getLast?_append_of_ne_nil _ (List.cons_ne_nil d rest)] at hc
      obtain ⟨l, hl, hnumber, hstop⟩ := ih hc
      refine ⟨l, List.mem_cons_of_mem _ hl, hnumber, ?_⟩
      rw [hstop, byteLength_append, byteLength_append, Nat.add_assoc, Nat.add_assoc]

theorem not_joined_of_viewsOf_append {source later : String}
    (h : viewsOf (source ++ later) =
      viewsOf source ++ (viewsOf later).map (View.shift source.utf8ByteSize)) :
    ¬ Joined source.toList later.toList := by
  rintro ⟨hlast, hfirst⟩
  obtain ⟨c, hc, hdigit⟩ := (Option.any_eq_true _ _).mp hlast
  obtain ⟨d, hd, hdigit'⟩ := (Option.any_eq_true _ _).mp hfirst
  obtain ⟨l, hl, hnumber, hstop⟩ := (laidOut_iff.mpr rfl : LaidOut 0 source.toList _).number_at_end
    hc hdigit
  have hmem : l ∈ lexemesOf (source ++ later) := by
    rw [viewsOf_eq, viewsOf_eq] at h
    rw [← List.mem_map_of_injective Lexeme.view_injective, h]
    exact List.mem_append_left _ (List.mem_map_of_mem hl)
  have hstands := (laidOut_iff.mpr rfl : LaidOut 0 _ _).tokenization.stands l hmem
  obtain ⟨_, before, after, hsource, hstart, hadjoins⟩ := hstands
  rw [String.toList_append, ← List.append_assoc] at hsource
  have hlength : byteLength (before ++ l.text.toList) = byteLength source.toList := by
    rw [byteLength_append, byteLength_toList, hstart, ← Lexeme.stop, hstop, Nat.zero_add]
  obtain ⟨gap, hgap, hlater⟩ := exists_gap hsource (Nat.le_of_eq hlength.symm)
  have hnil : gap = [] := by
    by_contra hne
    have hpos := byteLength_pos hne
    rw [hgap, byteLength_append] at hlength
    omega
  rw [hnil, List.nil_append] at hlater
  have hfalse := (hadjoins hnumber).2 d (hlater ▸ hd)
  rw [hdigit'] at hfalse
  cases hfalse

theorem viewsOf_append {source later : String} (h : ¬ Joined source.toList later.toList) :
    viewsOf (source ++ later) =
      viewsOf source ++ (viewsOf later).map (View.shift source.utf8ByteSize) := by
  simp only [viewsOf_eq, lexemesOf_append h, List.map_append, List.map_map]
  congr 2
  funext l
  exact l.view_shift _

theorem tokenizing_splits :
    (∀ source later : String, viewsOf (source ++ later) =
        viewsOf source ++ (viewsOf later).map (View.shift source.utf8ByteSize) ↔
      ¬ Joined source.toList later.toList) ∧
    ∀ (source : String) (pulls : Nat), let t := (Tokenizer.ofString source).after pulls
      ∃ before after, source = before ++ after ∧ before.utf8ByteSize = t.cursor ∧
        ∀ n, let fresh := (Tokenizer.ofString after).after n
          (t.after n).view = fresh.view.shift t.cursor ∧
            (t.after n).next.2.cursor = fresh.next.2.cursor + t.cursor := by
  refine ⟨fun source later => ⟨not_joined_of_viewsOf_append, viewsOf_append⟩, ?_⟩
  intro source pulls t
  obtain ⟨before, after, hsource, hsize, hnext⟩ := Tokenizer.exists_fresh source pulls
  refine ⟨before, after, hsource, hsize, fun n => ⟨?_, ?_⟩⟩
  · rw [← Tokenizer.view_shift, Tokenizer.view, hnext n]
    rfl
  · rw [hnext n, Tokenizer.next_shift]
    rfl

end Calculator
