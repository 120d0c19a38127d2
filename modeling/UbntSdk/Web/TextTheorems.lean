/-
UbntSdk.Web.TextTheorems — lines, keys and paths.

A text of lines without line breaks is cut into these lines, and a line into
its key and its value. The path of a key has the same text as the key when its
numbers are written the way `toCfg` writes them.
-/
import UbntSdk.Web.Config

namespace UbntSdk.Web

/-! ## Lines -/

/-- No line break. -/
def OneLine (s : Str) : Prop := '\r' ∉ s ∧ '\n' ∉ s

instance (s : Str) : Decidable (OneLine s) := inferInstanceAs (Decidable (_ ∧ _))

/-- The text of lines, as it is posted and stored. -/
def joinLines (lines : List Str) : Str := ['\n'].intercalate lines

theorem splitLines_cons {c : Char} (hr : c ≠ '\r') (hn : c ≠ '\n') (cs : Str) :
    ∃ line lines, splitLines cs = line :: lines ∧ splitLines (c :: cs) = (c :: line) :: lines := by
  have hhead : ∃ line lines, splitLines cs = line :: lines := by
    match cs with
    | [] => exact ⟨[], [], rfl⟩
    | d :: ds =>
        unfold splitLines
        split
        · exact ⟨_, _, rfl⟩
        · exact ⟨_, _, rfl⟩
        split
        · exact ⟨_, _, rfl⟩
        split
        · exact ⟨_, _, rfl⟩
        · exact ⟨_, _, rfl⟩
  obtain ⟨line, lines, hcs⟩ := hhead
  refine ⟨line, lines, hcs, ?_⟩
  rw [splitLines]
  · rw [if_neg (by simp [hr, hn]), hcs]
  · intro ds hc
    exact absurd hc hr

theorem splitLines_last {line : Str} (h : OneLine line) : splitLines line = [line] := by
  induction line with
  | nil => rfl
  | cons c cs ih =>
      have hc : c ≠ '\r' ∧ c ≠ '\n' := by
        simp only [OneLine, List.mem_cons, not_or] at h
        exact ⟨Ne.symm h.1.1, Ne.symm h.2.1⟩
      have hcs : OneLine cs := by
        simp only [OneLine, List.mem_cons, not_or] at h
        exact ⟨h.1.2, h.2.2⟩
      obtain ⟨l, ls, hsplit, hcons⟩ := splitLines_cons hc.1 hc.2 cs
      rw [ih hcs] at hsplit
      obtain ⟨rfl, rfl⟩ := List.cons.inj hsplit
      exact hcons

theorem splitLines_append {line : Str} (h : OneLine line) (rest : Str) :
    splitLines (line ++ '\n' :: rest) = line :: splitLines rest := by
  induction line with
  | nil =>
      rw [List.nil_append, splitLines]
      · rw [if_pos (.inr rfl)]
      · intro ds hc
        exact absurd hc (by decide)
  | cons c cs ih =>
      have hc : c ≠ '\r' ∧ c ≠ '\n' := by
        simp only [OneLine, List.mem_cons, not_or] at h
        exact ⟨Ne.symm h.1.1, Ne.symm h.2.1⟩
      have hcs : OneLine cs := by
        simp only [OneLine, List.mem_cons, not_or] at h
        exact ⟨h.1.2, h.2.2⟩
      obtain ⟨l, ls, hsplit, hcons⟩ := splitLines_cons hc.1 hc.2 (cs ++ '\n' :: rest)
      rw [ih hcs] at hsplit
      obtain ⟨rfl, rfl⟩ := List.cons.inj hsplit
      exact hcons

/-- Lines that are joined are cut into the same lines again. -/
theorem splitLines_join {lines : List Str} (h : ∀ l ∈ lines, OneLine l) (hne : lines ≠ []) :
    splitLines (joinLines lines) = lines := by
  induction lines with
  | nil => exact absurd rfl hne
  | cons line lines ih =>
      have hline := h line (List.mem_cons_self ..)
      cases lines with
      | nil =>
          have hjoin : joinLines [line] = line := by simp [joinLines]
          rw [hjoin, splitLines_last hline]
      | cons l ls =>
          have hjoin : joinLines (line :: l :: ls) = line ++ '\n' :: joinLines (l :: ls) := by
            simp [joinLines, List.intercalate]
          rw [hjoin, splitLines_append hline,
            ih (fun x hx => h x (List.mem_cons_of_mem _ hx)) (by simp)]

/-- A text is cut at every line break. -/
theorem oneLine_of_mem {text line : Str} (h : line ∈ splitLines text) : OneLine line := by
  induction text using splitLines.induct generalizing line with
  | case1 =>
      obtain rfl := List.mem_singleton.mp h
      decide
  | case2 cs ih =>
      rcases List.mem_cons.mp h with rfl | hmem
      · decide
      · exact ih hmem
  | case3 c cs hnot hbreak ih =>
      rw [splitLines, if_pos hbreak] at h
      · rcases List.mem_cons.mp h with rfl | hmem
        · decide
        · exact ih hmem
      · exact hnot
  | case4 c cs hnot hbreak l ls hsplit ih =>
      have hr : c ≠ '\r' := fun hc => hbreak (.inl hc)
      have hn : c ≠ '\n' := fun hc => hbreak (.inr hc)
      obtain ⟨l', ls', hsplit', hcons⟩ := splitLines_cons hr hn cs
      obtain ⟨rfl, rfl⟩ := List.cons.inj (hsplit.symm.trans hsplit')
      rw [hcons] at h
      rcases List.mem_cons.mp h with rfl | hmem
      · obtain ⟨hlr, hln⟩ := @ih l (hsplit ▸ List.mem_cons_self ..)
        exact ⟨by simp [Ne.symm hr, hlr], by simp [Ne.symm hn, hln]⟩
      · exact @ih line (hsplit ▸ List.mem_cons_of_mem _ hmem)
  | case5 c cs hnot hbreak hsplit ih =>
      have hr : c ≠ '\r' := fun hc => hbreak (.inl hc)
      have hn : c ≠ '\n' := fun hc => hbreak (.inr hc)
      obtain ⟨l', ls', hsplit', -⟩ := splitLines_cons hr hn cs
      rw [hsplit] at hsplit'
      cases hsplit'

/-! ## Entries -/

/-- The line of a key and a value. -/
def lineOf (e : Str × Str) : Str := e.1 ++ '=' :: e.2

theorem entryOf_lineOf {e : Str × Str} (h : '=' ∉ e.1) : entryOf (lineOf e) = some e := by
  have hne : ∀ c ∈ e.1, decide (c ≠ '=') = true := by
    intro c hc
    rw [decide_eq_true_iff]
    rintro rfl
    exact h hc
  rw [entryOf, lineOf, if_pos (by simp), List.takeWhile_append_of_pos hne,
    List.dropWhile_append_of_pos hne]
  simp

/-- So a printed configuration is read as its keys and values. -/
theorem entries_join {es : List (Str × Str)} (hkey : ∀ e ∈ es, '=' ∉ e.1)
    (hline : ∀ e ∈ es, OneLine (lineOf e)) : entries (joinLines (es.map lineOf)) = es := by
  cases hes : es with
  | nil => rfl
  | cons e rest =>
      have hlines : ∀ l ∈ es.map lineOf, OneLine l := by
        intro l hl
        obtain ⟨x, hx, rfl⟩ := List.mem_map.mp hl
        exact hline x hx
      rw [← hes, entries, splitLines_join hlines (by simp [hes]), List.filterMap_map]
      have hall : ∀ x ∈ es, (entryOf ∘ lineOf) x = some x := by
        intro x hx
        exact entryOf_lineOf (hkey x hx)
      rw [List.filterMap_congr hall, List.filterMap_some]

theorem lineOf_of_entryOf {line : Str} {e : Str × Str} (h : entryOf line = some e) :
    '=' ∉ e.1 ∧ lineOf e = line := by
  have hmem : '=' ∈ line := by
    rw [entryOf] at h
    split at h
    · assumption
    · cases h
  obtain ⟨k, v, rfl, hk⟩ := List.eq_append_cons_of_mem hmem
  obtain rfl := Option.some.inj (h.symm.trans (@entryOf_lineOf (k, v) hk))
  exact ⟨hk, rfl⟩

/-- The entries of a text are lines with a key before the first `=`. -/
theorem mem_entries {text : Str} {e : Str × Str} (h : e ∈ entries text) :
    '=' ∉ e.1 ∧ OneLine (lineOf e) := by
  obtain ⟨line, hline, he⟩ := List.mem_filterMap.mp h
  obtain ⟨hkey, rfl⟩ := lineOf_of_entryOf he
  exact ⟨hkey, oneLine_of_mem hline⟩

/-! ## Keys -/

/-- A number is written without zeros in front of it, and is not zero. -/
def Canonical (s : Str) : Prop := numeric s → 0 < parseInt s ∧ Nat.toDigits 10 (parseInt s) = s

instance (s : Str) : Decidable (Canonical s) := inferInstanceAs (Decidable (_ → _))

/-- The text of a path. -/
def keyOf (p : List Seg) : Str := ['.'].intercalate (p.map Seg.text)

theorem map_text_pathOf {segs : List Str} (h : ∀ s ∈ segs, Canonical s) :
    (pathOf segs).map Seg.text = segs := by
  induction segs with
  | nil => rfl
  | cons s segs ih =>
      cases segs with
      | nil => rfl
      | cons t segs =>
          rw [pathOf, List.map_cons, ih fun x hx => h x (List.mem_cons_of_mem _ hx)]
          congr 1
          split
          · rename_i hnum
            exact (h s (List.mem_cons_self ..) hnum).2
          · rfl

theorem path_ne_nil (key : Str) : path key ≠ [] := by
  rw [path]
  obtain ⟨s, segs, hsegs⟩ := List.exists_cons_of_ne_nil (List.splitOn_ne_nil '.' key)
  rw [hsegs]
  cases segs with
  | nil => simp [pathOf]
  | cons t segs => simp [pathOf]

theorem keyOf_path {key : Str} (h : ∀ s ∈ key.splitOn '.', Canonical s) : keyOf (path key) = key := by
  rw [keyOf, path, map_text_pathOf h, List.intercalate_splitOn]

/-- Two keys whose numbers are written as `toCfg` writes them have different paths. -/
theorem path_inj {k k' : Str} (h : ∀ s ∈ k.splitOn '.', Canonical s)
    (h' : ∀ s ∈ k'.splitOn '.', Canonical s) (heq : path k = path k') : k = k' := by
  rw [← keyOf_path h, heq, keyOf_path h']

/-- The key of a longer path. -/
theorem keyOf_append {p q : List Seg} (hp : p ≠ []) (hq : q ≠ []) :
    keyOf (p ++ q) = keyOf p ++ '.' :: keyOf q := by
  induction p with
  | nil => exact absurd rfl hp
  | cons a p ih =>
      obtain ⟨b, q, rfl⟩ := List.exists_cons_of_ne_nil hq
      cases p with
      | nil => simp [keyOf, List.intercalate]
      | cons c p =>
          have hstep (r : List Seg) : keyOf (a :: c :: r) = a.text ++ '.' :: keyOf (c :: r) := by
            simp [keyOf, List.intercalate]
          rw [List.cons_append, List.cons_append, hstep, hstep, ← List.cons_append, ih (by simp)]
          simp

/-- A section of a path is one of its key. -/
theorem key_of_path_isPrefix {k k' : Str} (h : ∀ s ∈ k.splitOn '.', Canonical s)
    (h' : ∀ s ∈ k'.splitOn '.', Canonical s) (hpre : path k <+: path k') (hne : path k ≠ path k') :
    (k ++ ['.']) <+: k' := by
  obtain ⟨q, hq⟩ := hpre
  have hqne : q ≠ [] := by
    rintro rfl
    exact hne (by simpa using hq)
  refine ⟨keyOf q, ?_⟩
  rw [← keyOf_path h', ← hq, keyOf_append (path_ne_nil k) hqne, keyOf_path h]
  simp

end UbntSdk.Web
