/-
UbntSdk.Ivi.PayloadTheorems — what the functions for TCP and UDP compute,
and the steps of those for ICMP.

The functions write a new packet field by field into a buffer that holds
something already. Here each of them is one equation: `copy` is what the
`memcpy` leaves, `sealed` a packet with its checksum, and `settle` what
follows a quoted header when `k` bytes of it were translated. None of them
changes the length of a buffer (`Progress.Keeps`).
-/
import UbntSdk.Ivi.HeaderTheorems
import UbntSdk.Ivi.Payload

namespace UbntSdk.Ivi

open UbntSdk.Lib

/-! ## Copying and sealing -/

/-- `src` over `dst`, as far as there is room. -/
def copy (dst src : List UInt8) : List UInt8 := src.take dst.length ++ dst.drop src.length

@[simp] theorem copy_length (dst src : List UInt8) : (copy dst src).length = dst.length := by
  simp only [copy, List.length_append, List.length_take, List.length_drop]
  omega

theorem copy_of_le {dst src : List UInt8} (h : dst.length ≤ src.length) :
    copy dst src = src.take dst.length := by
  rw [copy, List.drop_eq_nil_of_le h, List.append_nil]

theorem copy_of_ge {dst src : List UInt8} (h : src.length ≤ dst.length) :
    copy dst src = src ++ dst.drop src.length := by
  rw [copy, List.take_of_length_le h]

/-- Parts of the same length are copied part by part. -/
theorem copy_append {a b : List UInt8} (h : a.length = b.length) (dst src : List UInt8) :
    copy (a ++ dst) (b ++ src) = b ++ copy dst src := by
  simp only [copy, List.length_append]
  rw [List.take_append, List.take_of_length_le (by omega), List.drop_append,
    List.drop_eq_nil_of_le (by omega), List.nil_append]
  have h1 : a.length + dst.length - b.length = dst.length := by omega
  have h2 : b.length + src.length - a.length = src.length := by omega
  rw [h1, h2, List.append_assoc]

/-- The `memcpy` of the transport functions. -/
theorem poke?_copy (new old : List UInt8) :
    poke? new 0 (old.take (if new.length < old.length then new.length else old.length)) =
      some (copy new old) := by
  have hlen : (if new.length < old.length then new.length else old.length) =
      min new.length old.length := by
    split <;> omega
  rw [hlen, poke?, if_pos (by simp only [List.length_take]; omega), copy]
  simp only [List.take_zero, List.nil_append, List.length_take, Nat.zero_add]
  congr 2
  · rcases Nat.le_total new.length old.length with h | h
    · rw [Nat.min_eq_left h]
    · rw [Nat.min_eq_right h, List.take_length, List.take_of_length_le h]
  · rcases Nat.le_total new.length old.length with h | h
    · rw [List.drop_eq_nil_of_le (by omega), List.drop_eq_nil_of_le h]
    · rw [show min (min new.length old.length) old.length = old.length by omega]

/-- The checksum at `check` is filled in. -/
def sealAt (magic : Nat → Nat → UInt16) (check : Nat) (m : List UInt8) : Option (List UInt8) := do
  let new ← poke? m check [0, 0]
  store16? .big new check (magic new.length (sum16 new))

/-- A packet with the checksum behind `a`. -/
def sealed (magic : Nat → Nat → UInt16) (a b : List UInt8) : List UInt8 :=
  a ++ (word16 .big (magic (a.length + (2 + b.length)) (sum16 (a ++ ([0, 0] ++ b)))) ++ b)

@[simp] theorem sealed_length (magic : Nat → Nat → UInt16) (a b : List UInt8) :
    (sealed magic a b).length = a.length + (2 + b.length) := by
  simp [sealed]

theorem sealAt_eq (magic : Nat → Nat → UInt16) {a c : List UInt8} {check : Nat}
    (ha : a.length = check) (hc : c.length = 2) (b : List UInt8) :
    sealAt magic check (a ++ (c ++ b)) = some (sealed magic a b) := by
  have hzero := poke?_append a c b [0, 0] ha.symm (by simp [hc])
  have hfill := poke?_append a [0, 0] b
    (word16 .big (magic (a ++ ([0, 0] ++ b)).length (sum16 (a ++ ([0, 0] ++ b))))) ha.symm (by simp)
  simp only [sealAt, Option.bind_eq_bind, hzero, Option.bind_some, store16?, hfill, sealed]
  simp only [List.length_append, List.length_cons, List.length_nil]

theorem sealAt_none (magic : Nat → Nat → UInt16) {check : Nat} {m : List UInt8}
    (h : m.length < check + 2) : sealAt magic check m = none := by
  simp only [sealAt, poke?, List.length_cons, List.length_nil]
  rw [if_neg (by omega)]
  rfl

theorem transportTrans_eq {headerLen check : Nat} (magic : Nat → Nat → UInt16)
    (new old : List UInt8) :
    transportTrans headerLen check magic new old =
      if headerLen ≤ old.length then (sealAt magic check (copy new old)).map (true, ·)
      else some (false, new) := by
  unfold transportTrans
  split
  · simp only [poke?_copy, sealAt, Option.bind_eq_bind, Option.bind_some, Option.map_eq_bind,
      Option.bind_assoc]
    rfl
  · rfl

/-! ## The end of the ICMP functions -/

/-- The first `k` bytes stay, the rest is copied. -/
def overlay (k : Nat) (new old : List UInt8) : List UInt8 :=
  new.take k ++ copy (new.drop k) (old.drop k)

@[simp] theorem overlay_length {k : Nat} (new old : List UInt8) :
    (overlay k new old).length = new.length := by
  simp only [overlay, List.length_append, List.length_take, copy_length, List.length_drop]
  omega

theorem overlay_zero (new old : List UInt8) : overlay 0 new old = copy new old := by
  simp [overlay]

theorem sub?_eq {a b : Nat} (h : b ≤ a) : sub? a b = some (a - b) := if_pos h

theorem sub?_none {a b : Nat} (h : a < b) : sub? a b = none := if_neg (by omega)

/-- `memcpy` of `n` bytes that fit. -/
theorem poke?_take {new old : List UInt8} {ready n : Nat} (hr : ready ≤ new.length)
    (hn : n = min old.length (new.length - ready)) :
    poke? new ready (old.take n) = some (new.take ready ++ copy (new.drop ready) old) := by
  have hlen : (old.take n).length = n := by simp only [List.length_take]; omega
  rw [poke?, hlen, if_pos (by omega), copy, List.append_assoc, List.length_drop, List.drop_drop]
  congr 3
  · rcases Nat.le_total old.length (new.length - ready) with h | h
    · rw [List.take_of_length_le (by omega), List.take_of_length_le h]
    · rw [hn, Nat.min_eq_right h]
  · rcases Nat.le_total old.length (new.length - ready) with h | h
    · rw [hn, Nat.min_eq_left h]
    · rw [List.drop_eq_nil_of_le (by omega), List.drop_eq_nil_of_le (by omega)]

/-- The rest is copied as far as there is room. -/
theorem finish_eq (magic : Nat → Nat → UInt16) {p : Progress} (hold : p.passLen ≤ p.old.length)
    (hnew : p.readyLen ≤ p.new.length) :
    finish magic p =
      (sealAt magic 2 (p.new.take p.readyLen ++
        copy (p.new.drop p.readyLen) (p.old.drop p.passLen))).map (true, ·, p.old) := by
  have hcopy {n : Nat} (hn : n = min (p.old.length - p.passLen) (p.new.length - p.readyLen)) :
      peek? p.old p.passLen n = some ((p.old.drop p.passLen).take n) ∧
      poke? p.new p.readyLen ((p.old.drop p.passLen).take n) =
        some (p.new.take p.readyLen ++ copy (p.new.drop p.readyLen) (p.old.drop p.passLen)) :=
    ⟨if_pos (by omega), poke?_take hnew (by rw [List.length_drop]; exact hn)⟩
  simp only [finish, Option.bind_eq_bind, sub?_eq hold, Option.bind_some, sealAt,
    Option.map_eq_bind, Option.bind_assoc]
  by_cases hroom : p.new.length < p.old.length - p.passLen + p.readyLen
  · obtain ⟨hpeek, hpoke⟩ := hcopy (n := p.new.length + p.passLen - p.readyLen - p.passLen)
      (by omega)
    rw [if_pos hroom, sub?_eq (by omega), Option.bind_some, sub?_eq (by omega), Option.bind_some,
      hpeek, Option.bind_some, hpoke]
    rfl
  · obtain ⟨hpeek, hpoke⟩ := hcopy (n := p.old.length - p.passLen) (by omega)
    rw [if_neg hroom, hpeek, Option.bind_some, hpoke]
    rfl

theorem finish_none (magic : Nat → Nat → UInt16) {p : Progress} (hold : p.passLen ≤ p.old.length)
    (hnew : p.new.length < p.readyLen) : finish magic p = none := by
  have hroom : p.new.length < p.old.length - p.passLen + p.readyLen := by omega
  simp only [finish, Option.bind_eq_bind, sub?_eq hold, Option.bind_some, if_pos hroom]
  rcases Nat.lt_or_ge (p.new.length + p.passLen) p.readyLen with h | h
  · rw [sub?_none h]
    rfl
  · rw [sub?_eq h, Option.bind_some, sub?_none (by omega)]
    rfl

/-! ## Lengths

Nothing changes the length of a buffer. -/

theorem suffix?_eq {m : List UInt8} {n : Nat} (h : n ≤ m.length) : suffix? m n = some (m.drop n) :=
  if_pos h

theorem suffix?_append {a : List UInt8} {n : Nat} (h : a.length = n) (b : List UInt8) :
    suffix? (a ++ b) n = some b := by
  rw [suffix?_eq (by simp [h]), List.drop_left' h]

theorem eq_of_suffix? {m r : List UInt8} {n : Nat} (h : suffix? m n = some r) :
    n ≤ m.length ∧ r = m.drop n := by
  unfold suffix? at h
  split at h
  · exact ⟨by assumption, (Option.some.inj h).symm⟩
  · cases h

/-- A part behind `n` that was replaced by one as long. -/
theorem length_replaced {m r r' : List UInt8} {n : Nat} (h : suffix? m n = some r)
    (hr : r'.length = r.length) : (m.take n ++ r').length = m.length := by
  obtain ⟨hn, rfl⟩ := eq_of_suffix? h
  simp only [List.length_append, List.length_take, hr, List.length_drop]
  omega

theorem sealAt_length {magic : Nat → Nat → UInt16} {check : Nat} {m m' : List UInt8}
    (h : sealAt magic check m = some m') : m'.length = m.length ∧ check + 2 ≤ m.length := by
  simp only [sealAt, Option.bind_eq_bind, Option.bind_eq_some_iff, store16?] at h
  obtain ⟨n1, h1, h2⟩ := h
  exact ⟨(poke?_length h2).trans (poke?_length h1), poke?_le h1⟩

theorem transportTrans_length {headerLen check : Nat} {magic : Nat → Nat → UInt16}
    {new old : List UInt8} {r : Bool × List UInt8}
    (h : transportTrans headerLen check magic new old = some r) : r.2.length = new.length := by
  rw [transportTrans_eq] at h
  split at h
  · obtain ⟨m, hm, rfl⟩ := Option.map_eq_some_iff.mp h
    rw [(sealAt_length hm).1, copy_length]
  · obtain rfl := Option.some.inj h
    rfl

/-- Only a packet with a header is translated. -/
theorem le_of_transportTrans {headerLen check : Nat} {magic : Nat → Nat → UInt16}
    {new old new' : List UInt8}
    (h : transportTrans headerLen check magic new old = some (true, new')) :
    headerLen ≤ old.length := by
  rw [transportTrans_eq] at h
  split at h
  · assumption
  · cases h

theorem finish_length {magic : Nat → Nat → UInt16} {p : Progress}
    {r : Bool × List UInt8 × List UInt8} (h : finish magic p = some r) :
    r.1 = true ∧ r.2.1.length = p.new.length ∧ r.2.2 = p.old ∧ p.passLen ≤ p.old.length := by
  by_cases hold : p.passLen ≤ p.old.length
  · by_cases hnew : p.readyLen ≤ p.new.length
    · rw [finish_eq magic hold hnew] at h
      obtain ⟨m, hm, rfl⟩ := Option.map_eq_some_iff.mp h
      refine ⟨rfl, ?_, rfl, hold⟩
      rw [(sealAt_length hm).1]
      simp only [List.length_append, List.length_take, copy_length, List.length_drop]
      omega
    · rw [finish_none magic hold (by omega)] at h
      cases h
  · simp only [finish, Option.bind_eq_bind, sub?_none (Nat.lt_of_not_le hold)] at h
    cases h

/-- `p` works on buffers of the same lengths. -/
def Progress.Keeps (p : Progress) (new old : List UInt8) : Prop :=
  p.new.length = new.length ∧ p.old.length = old.length

theorem Progress.transport_keeps {p q : Progress} {headerLen : Nat}
    {trans : List UInt8 → List UInt8 → Option (Bool × List UInt8)}
    (htrans : ∀ new old r, trans new old = some r → r.2.length = new.length)
    (h : p.transport headerLen trans = some q) : q.Keeps p.new p.old := by
  simp only [transport, Option.bind_eq_bind, Option.bind_eq_some_iff] at h
  obtain ⟨newIn, hn, oldIn, -, ⟨ok, newOut⟩, hr, hq⟩ := h
  have hlen := length_replaced hn (htrans newIn oldIn _ hr)
  cases ok <;> obtain rfl := Option.some.inj hq <;> exact ⟨hlen, rfl⟩

theorem Progress.icmp_keeps {p q : Progress}
    {trans : List UInt8 → List UInt8 → Option (Bool × List UInt8 × List UInt8)}
    (htrans : ∀ new old r, trans new old = some r →
      r.2.1.length = new.length ∧ r.2.2.length = old.length)
    (h : p.icmp trans = some q) : q.Keeps p.new p.old := by
  simp only [icmp, Option.bind_eq_bind, Option.bind_eq_some_iff] at h
  obtain ⟨newIn, hn, oldIn, ho, ⟨ok, newOut, oldOut⟩, hr, hq⟩ := h
  obtain ⟨hnew, hold⟩ := htrans newIn oldIn _ hr
  have hnew := length_replaced hn hnew
  have hold := length_replaced ho hold
  cases ok <;> obtain rfl := Option.some.inj hq <;> exact ⟨hnew, hold⟩

theorem Progress.fill_keeps {p q : Progress} (h : p.fill = some q) :
    q.Keeps p.new p.old ∧ 8 ≤ p.new.length := by
  simp only [fill, Option.bind_eq_bind, Option.bind_eq_some_iff] at h
  obtain ⟨code, -, n1, h1, gateway, hg, n2, h2, hq⟩ := h
  obtain rfl := Option.some.inj hq
  have hle := poke?_le h2
  have hlen : gateway.length = 4 := by
    obtain ⟨hin, rfl⟩ := peek?_eq_some.mp hg
    simp only [List.length_take, List.length_drop]
    omega
  refine ⟨⟨(poke?_length h2).trans (poke?_length h1), rfl⟩, ?_⟩
  rw [← poke?_length h1]
  omega

theorem Progress.Keeps.trans {p : Progress} {new old new' old' : List UInt8}
    (h : p.Keeps new old) (hn : new.length = new'.length) (ho : old.length = old'.length) :
    p.Keeps new' old' := ⟨h.1.trans hn, h.2.trans ho⟩

/-! ## The end of a level -/

theorem Progress.fill_eq {t b0 b1 n1 proto : UInt8} {m g c w y x : List UInt8} {ready pass : Nat}
    (hm : m.length = 2) (hg : g.length = 4) (hc : c.length = 2) (hw : w.length = 4) :
    (Progress.mk ([t] ++ ([n1] ++ (m ++ (g ++ y)))) ([b0] ++ ([b1] ++ (c ++ (w ++ x)))) proto ready
      pass).fill =
      some ⟨[t] ++ ([b1] ++ (m ++ (w ++ y))), [b0] ++ ([b1] ++ (c ++ (w ++ x))), proto, ready,
        pass⟩ := by
  have hget : ([b0] ++ ([b1] ++ (c ++ (w ++ x))))[1]? = some b1 := by simp
  simp only [fill, hget, Option.bind_eq_bind, Option.bind_some]
  simp only [peek?_skip, peek?_head, poke?_skip, poke?_head, List.length_cons, List.length_nil,
    Nat.zero_add, le_refl, Nat.sub_self, Nat.reduceLeDiff, Nat.reduceSub, hm, hg, hc, hw,
    Option.map_some, Option.bind_some]
  rfl

/-- The end of a level: `h` is the translated quote, and `k` bytes behind it
are done. -/
theorem finish_level (magic : Nat → Nat → UInt16) {t b proto : UInt8} {m w h new a old : List UInt8}
    {ready pass k : Nat} (hm : m.length = 2) (hw : w.length = 4) (hr : ready = 8 + h.length + k)
    (hp : pass = a.length + k) (hnew : k ≤ new.length) (hold : k ≤ old.length) :
    finish magic ⟨[t] ++ ([b] ++ (m ++ (w ++ (h ++ new)))), a ++ old, proto, ready, pass⟩ =
      some (true, sealed magic [t, b] (w ++ (h ++ overlay k new old)), a ++ old) := by
  obtain ⟨u, new, hu, -, rfl⟩ := exists_split k (new.length - k)
    (show new.length = k + (new.length - k) by omega)
  obtain ⟨v, old, hv, -, rfl⟩ := exists_split k (old.length - k)
    (show old.length = k + (old.length - k) by omega)
  have hdone : [t] ++ ([b] ++ (m ++ (w ++ (h ++ (u ++ new))))) =
      ([t] ++ ([b] ++ (m ++ (w ++ (h ++ u))))) ++ new := by simp
  have hpassed : a ++ (v ++ old) = (a ++ v) ++ old := by simp
  rw [finish_eq magic (by simp; omega) (by simp; omega)]
  dsimp only
  rw [hdone, hpassed, List.take_left' (by simp; omega), List.drop_left' (by simp; omega),
    List.drop_left' (by simp; omega)]
  have hbody : ([t] ++ ([b] ++ (m ++ (w ++ (h ++ u))))) ++ copy new old =
      [t, b] ++ (m ++ (w ++ (h ++ overlay k (u ++ new) (v ++ old)))) := by
    rw [overlay, List.take_left' hu, List.drop_left' hu, List.drop_left' hv]
    simp
  have hseal := sealAt_eq magic (show [t, b].length = 2 from rfl) hm
    (w ++ (h ++ overlay k (u ++ new) (v ++ old)))
  rw [hbody, hseal]
  rfl

theorem finish_level_none (magic : Nat → Nat → UInt16) {t b proto : UInt8}
    {m w h new a old : List UInt8} {ready pass k : Nat} (hm : m.length = 2) (hw : w.length = 4)
    (hr : ready = 8 + h.length + k) (hp : pass = a.length + k) (hnew : new.length < k)
    (hold : k ≤ old.length) :
    finish magic ⟨[t] ++ ([b] ++ (m ++ (w ++ (h ++ new)))), a ++ old, proto, ready, pass⟩ = none :=
  finish_none magic (by simp; omega) (by simp; omega)

theorem finish_copied (magic : Nat → Nat → UInt16) {t b0 b1 proto : UInt8} {m c w : List UInt8}
    (hm : m.length = 2) (hc : c.length = 2) (hw : w.length = 4) (new x : List UInt8) :
    finish magic ⟨[t] ++ ([b1] ++ (m ++ (w ++ new))), [b0] ++ ([b1] ++ (c ++ (w ++ x))), proto, 8,
        8⟩ =
      some (true, sealed magic [t, b1] (w ++ copy new x), [b0] ++ ([b1] ++ (c ++ (w ++ x)))) := by
  have h := @finish_level magic t b1 proto m w [] new ([b0] ++ ([b1] ++ (c ++ w))) x 8 8 0 hm hw rfl
    (by simp [hc, hw]) (Nat.zero_le _) (Nat.zero_le _)
  simpa [overlay_zero] using h

/-- The header is copied with the rest. -/
theorem finish_whole (magic : Nat → Nat → UInt16) {t b0 b1 proto : UInt8} {m c w : List UInt8}
    (hm : m.length = 2) (hc : c.length = 2) (new x : List UInt8) :
    finish magic ⟨[t] ++ ([b1] ++ (m ++ (w ++ new))), [b0] ++ ([b1] ++ (c ++ (w ++ x))), proto, 0,
        0⟩ =
      some (true, sealed magic [b0, b1] (w ++ copy new x), [b0] ++ ([b1] ++ (c ++ (w ++ x)))) := by
  rw [finish_eq magic (Nat.zero_le _) (Nat.zero_le _)]
  dsimp only
  have hcopy : copy ([t] ++ ([b1] ++ (m ++ (w ++ new)))) ([b0] ++ ([b1] ++ (c ++ (w ++ x)))) =
      [b0] ++ ([b1] ++ (c ++ (w ++ copy new x))) := by
    rw [copy_append (by simp), copy_append rfl, copy_append (hm.trans hc.symm), copy_append rfl]
  rw [List.take_zero, List.drop_zero, List.drop_zero, List.nil_append, hcopy]
  have hseal := sealAt_eq magic (show [b0, b1].length = 2 from rfl) hc (w ++ copy new x)
  have hbody : [b0] ++ ([b1] ++ (c ++ (w ++ copy new x))) = [b0, b1] ++ (c ++ (w ++ copy new x)) := by
    simp
  rw [hbody, hseal]
  rfl

/-- What is behind a quote: `k` bytes are translated and stay, the rest is
copied. -/
def settle (k : Nat) (new old : List UInt8) : Option (List UInt8 × List UInt8) :=
  if k ≤ new.length then some (overlay k new old, old) else none

theorem finish_settle (magic : Nat → Nat → UInt16) {t b proto : UInt8} {m w h new a old : List UInt8}
    {ready pass k : Nat} (hm : m.length = 2) (hw : w.length = 4) (hr : ready = 8 + h.length + k)
    (hp : pass = a.length + k) (hold : k ≤ old.length) :
    finish magic ⟨[t] ++ ([b] ++ (m ++ (w ++ (h ++ new)))), a ++ old, proto, ready, pass⟩ =
      (settle k new old).map fun r =>
        (true, sealed magic [t, b] (w ++ (h ++ r.1)), a ++ r.2) := by
  by_cases hk : k ≤ new.length
  · rw [settle, if_pos hk, finish_level magic hm hw hr hp hk hold]
    rfl
  · rw [settle, if_neg hk, finish_level_none magic hm hw hr hp (by omega) hold]
    rfl

section Quoted

variable {t b proto : UInt8} {m w h a new old : List UInt8} {ready : Nat}

/-- The buffers of a level, cut where the quoted packet goes on. -/
theorem suffix?_level (hm : m.length = 2) (hw : w.length = 4) (hr : ready = 8 + h.length) :
    suffix? ([t] ++ ([b] ++ (m ++ (w ++ (h ++ new))))) ready = some new ∧
      ([t] ++ ([b] ++ (m ++ (w ++ (h ++ new))))).take ready = [t] ++ ([b] ++ (m ++ (w ++ h))) := by
  have hcut : [t] ++ ([b] ++ (m ++ (w ++ (h ++ new)))) = ([t] ++ ([b] ++ (m ++ (w ++ h)))) ++ new := by
    simp
  have hlen : ([t] ++ ([b] ++ (m ++ (w ++ h)))).length = ready := by simp; omega
  rw [hcut]
  exact ⟨suffix?_append hlen new, List.take_left' hlen⟩

/-- A quoted transport header, and the end. -/
theorem transport_finish (magic : Nat → Nat → UInt16) (hm : m.length = 2) (hw : w.length = 4)
    (hr : ready = 8 + h.length) {k : Nat}
    {trans : List UInt8 → List UInt8 → Option (Bool × List UInt8)}
    (hk : ∀ new old new', trans new old = some (true, new') → k ≤ old.length) :
    ((Progress.mk ([t] ++ ([b] ++ (m ++ (w ++ (h ++ new))))) (a ++ old) proto ready
        a.length).transport k trans).bind (finish magic) =
      ((trans new old).bind fun r => settle (if r.1 then k else 0) r.2 old).map fun r =>
        (true, sealed magic [t, b] (w ++ (h ++ r.1)), a ++ r.2) := by
  obtain ⟨hsuf, htake⟩ := @suffix?_level t b m w h new ready hm hw hr
  simp only [Progress.transport, Option.bind_eq_bind, hsuf, suffix?_append rfl, Option.bind_some,
    htake]
  cases htr : trans new old with
  | none => rfl
  | some r =>
      obtain ⟨ok, new'⟩ := r
      simp only [Option.bind_some, List.append_assoc]
      cases ok with
      | true =>
          simp only [reduceIte]
          exact finish_settle magic hm hw (by omega) rfl (hk new old new' htr)
      | false =>
          simp only [Bool.false_eq_true, reduceIte]
          exact finish_settle magic hm hw (by omega) rfl (Nat.zero_le _)

/-- A quoted ICMP packet, and the end. -/
theorem icmp_finish (magic : Nat → Nat → UInt16) (hm : m.length = 2) (hw : w.length = 4)
    (hr : ready = 8 + h.length)
    {trans : List UInt8 → List UInt8 → Option (Bool × List UInt8 × List UInt8)}
    (hk : ∀ new old r, trans new old = some r →
      r.2.2.length = old.length ∧ r.1 = decide (8 ≤ old.length)) :
    ((Progress.mk ([t] ++ ([b] ++ (m ++ (w ++ (h ++ new))))) (a ++ old) proto ready a.length).icmp
        trans).bind (finish magic) =
      ((trans new old).bind fun r => settle (if r.1 then 8 else 0) r.2.1 r.2.2).map fun r =>
        (true, sealed magic [t, b] (w ++ (h ++ r.1)), a ++ r.2) := by
  obtain ⟨hsuf, htake⟩ := @suffix?_level t b m w h new ready hm hw hr
  simp only [Progress.icmp, Option.bind_eq_bind, hsuf, suffix?_append rfl, Option.bind_some, htake,
    List.take_left' rfl]
  cases htr : trans new old with
  | none => rfl
  | some r =>
      obtain ⟨ok, new', old'⟩ := r
      obtain ⟨hlen, hok⟩ := hk new old _ htr
      simp only [Option.bind_some, List.append_assoc]
      cases ok with
      | true =>
          have h8 : 8 ≤ old.length := by simpa using hok.symm
          simp only [reduceIte, ICMP_HEADER_LEN]
          exact finish_settle magic hm hw (by omega) rfl (hlen ▸ h8)
      | false =>
          simp only [Bool.false_eq_true, reduceIte]
          exact finish_settle magic hm hw (by omega) rfl (Nat.zero_le _)

end Quoted

end UbntSdk.Ivi
