/-
UbntSdk.Ivi.Icmp6to4Theorems — what `icmp6to4_trans` computes.

The cases are those of `icmp4to6_trans`, without the look ahead. A quote that
says it has a fragment header must have all of it (`Headers6`); its length is
`quoteLen6`, its new header `header4`. `nested6` is what becomes of the packet
behind it.
-/
import UbntSdk.Ivi.PayloadTheorems

namespace UbntSdk.Ivi

open UbntSdk.Lib

/-! ## The quoted header -/

/-- The length of the headers of an IPv6 packet. -/
def quoteLen6 (x : List UInt8) : Nat := if x.getD 6 0 = NEXTHDR_FRAGMENT then 48 else 40

/-- The new header of a quoted packet. -/
def header4 (e : ByteOrder) (x : List UInt8) : List UInt8 :=
  ((iphdr6to4Trans e (List.replicate 20 0) x
    (if x.getD 6 0 = NEXTHDR_FRAGMENT then -8 else 0)).map (·.2)).getD []

theorem iphdr6to4Trans_quote (e : ByteOrder) {x : List UInt8} (h : Headers6 x) :
    (header4 e x).length = 20 ∧ ∀ a rest : List UInt8, a.length = 20 →
      iphdr6to4Trans e (a ++ rest) x (if x.getD 6 0 = NEXTHDR_FRAGMENT then -8 else 0) =
        some (protocol6 x, header4 e x ++ rest) := by
  obtain ⟨hdr, -, hall⟩ := exists_iphdr6to4Trans e h
    (if x.getD 6 0 = NEXTHDR_FRAGMENT then -8 else 0)
  have hblank := hall (List.replicate 20 0) [] (List.length_replicate ..)
  rw [List.append_nil, List.append_nil] at hblank
  have heq : header4 e x = hdr.bytes := by
    rw [header4, hblank]
    rfl
  rw [heq]
  exact ⟨hdr.bytes_length, hall⟩

/-- The types that quote a packet. -/
def IsError6 (type : UInt8) : Prop :=
  type = ICMPV6_DEST_UNREACH ∨ type = ICMPV6_TIME_EXCEED ∨ type = ICMPV6_PKT_TOOBIG

instance (type : UInt8) : Decidable (IsError6 type) := inferInstanceAs (Decidable (_ ∨ _ ∨ _))

/-- The word behind the checksum, less the difference of the headers. -/
def mtu6 (x w : List UInt8) : List UInt8 :=
  if 40 ≤ x.length then
    word32 .big (ofWord32 .big w - if x.getD 6 0 = NEXTHDR_FRAGMENT then 28 else 20)
  else w

/-- The first switch: the new type, the code, and the word behind the
checksum. -/
def head6 (type code : UInt8) (w x : List UInt8) : UInt8 × UInt8 × List UInt8 :=
  if type = ICMPV6_ECHO_REPLY then (ICMP_ECHOREPLY, code, w)
  else if type = ICMPV6_ECHO_REQUEST then (ICMP_ECHO, code, w)
  else if type = ICMPV6_DEST_UNREACH then (ICMP_DEST_UNREACH, if code = 4 then 3 else code, w)
  else if type = ICMPV6_TIME_EXCEED then (ICMP_TIME_EXCEEDED, code, w)
  else if type = ICMPV6_PKT_TOOBIG then (ICMP_DEST_UNREACH, ICMP_FRAG_NEEDED, mtu6 x w)
  else (type, code, w)

theorem head6_length (type code : UInt8) {w : List UInt8} (hw : w.length = 4) (x : List UInt8) :
    (head6 type code w x).2.2.length = 4 := by
  have hmtu : (mtu6 x w).length = 4 := by
    unfold mtu6
    split
    · exact word32_length ..
    · exact hw
  unfold head6
  split
  · exact hw
  split
  · exact hw
  split
  · exact hw
  split
  · exact hw
  split
  · exact hmtu
  · exact hw

section Quote

variable (e : ByteOrder) {adjust : UInt32 → List UInt8 → Option (List UInt8)}

theorem quote6to4_short (adjust : UInt32 → List UInt8 → Option (List UInt8)) (new : List UInt8)
    {b x : List UInt8} (hb : b.length = 8) (hx : x.length < 40) :
    quote6to4 e adjust new (b ++ x) = some ⟨new, b ++ x, NO_PROTO, 8, 8⟩ := by
  rw [quote6to4, if_neg]
  · rfl
  · simp only [IP6_ICMP_LEN, List.length_append, hb]
    omega

theorem quote6to4_eq {b b' n was x : List UInt8} (hb : b.length = 8) (hn : n.length = 8)
    (hwas : was.length = 20) (hx : Headers6 x)
    (hadj : adjust (if x.getD 6 0 = NEXTHDR_FRAGMENT then 28 else 20) (b ++ x) = some (b' ++ x))
    (new : List UInt8) :
    quote6to4 e adjust (n ++ (was ++ new)) (b ++ x) =
      some ⟨n ++ (header4 e x ++ new), b' ++ x, protocol6 x, IP_ICMP_LEN, 8 + quoteLen6 x⟩ := by
  have hlen : IP6_ICMP_LEN ≤ (b ++ x).length := by
    have h40 := hx.1
    simp only [IP6_ICMP_LEN, List.length_append, hb]
    omega
  have htake : (n ++ (was ++ new)).take 8 = n := List.take_left' hn
  have hget : x[6]? = some (x.getD 6 0) := by
    have h40 := hx.1
    rw [List.getD_eq_getElem?_getD, List.getElem?_eq_getElem (by omega), Option.getD_some]
  have htrans := (iphdr6to4Trans_quote e hx).2 was new hwas
  simp only [quote6to4, if_pos hlen, Option.bind_eq_bind, ICMP_HEADER_LEN, suffix?_append hb,
    suffix?_append hn, Option.bind_some, hget, htake]
  by_cases hfrag : x.getD 6 0 = NEXTHDR_FRAGMENT
  · rw [if_pos hfrag] at hadj htrans
    simp only [if_pos hfrag, htrans, hadj, Option.bind_some, quoteLen6]
    rfl
  · rw [if_neg hfrag] at hadj htrans
    simp only [if_neg hfrag, htrans, hadj, Option.bind_some, quoteLen6]
    rfl

/-- The quoted headers must be there, and room for the new one. -/
theorem le_of_quote6to4 {b n new x : List UInt8} (hb : b.length = 8) (hn : n.length = 8)
    (hx : 40 ≤ x.length) {p : Progress} (h : quote6to4 e adjust (n ++ new) (b ++ x) = some p) :
    Headers6 x ∧ 20 ≤ new.length := by
  have hlen : IP6_ICMP_LEN ≤ (b ++ x).length := by
    simp only [IP6_ICMP_LEN, List.length_append, hb]
    omega
  simp only [quote6to4, if_pos hlen, Option.bind_eq_bind, ICMP_HEADER_LEN, suffix?_append hb,
    suffix?_append hn, Option.bind_some, Option.bind_eq_some_iff] at h
  obtain ⟨nexthdr, -, h⟩ := h
  split at h
  · obtain ⟨r, hr, -⟩ := Option.bind_eq_some_iff.mp h
    exact ⟨(le_of_iphdr6to4Trans hr).1, (le_of_iphdr6to4Trans hr).2.1⟩
  · obtain ⟨old', -, h⟩ := Option.bind_eq_some_iff.mp h
    obtain ⟨r, hr, -⟩ := Option.bind_eq_some_iff.mp h
    exact ⟨(le_of_iphdr6to4Trans hr).1, (le_of_iphdr6to4Trans hr).2.1⟩

end Quote

/-! ## The header -/

theorem adjustMtu_eq {b0 b1 : UInt8} {c w : List UInt8} (hc : c.length = 2) (hw : w.length = 4)
    (less : UInt32) (x : List UInt8) :
    adjustMtu less ([b0] ++ ([b1] ++ (c ++ (w ++ x)))) =
      some ([b0] ++ ([b1] ++ (c ++ (word32 .big (ofWord32 .big w - less) ++ x)))) := by
  simp only [adjustMtu, load32?, store32?, Option.bind_eq_bind]
  simp only [peek?_skip, peek?_head, poke?_skip, poke?_head, List.length_cons, List.length_nil,
    Nat.zero_add, Nat.reduceLeDiff, Nat.reduceSub, hc, hw, word32_length, Option.map_some,
    Option.bind_some]

/-- An error type comes down to its quote; `adjust` is what it does to the
word behind the checksum. -/
theorem head6to4_error (e : ByteOrder) {b0 b1 : UInt8} {c w : List UInt8} (hb : IsError6 b0)
    (hc : c.length = 2) (hw : w.length = 4) (x : List UInt8) :
    ∃ adjust, (∀ n0 rest, head6to4 e b0 ([n0] ++ rest) ([b0] ++ ([b1] ++ (c ++ (w ++ x)))) =
        quote6to4 e adjust ([(head6 b0 b1 w x).1] ++ rest)
          ([b0] ++ ([(head6 b0 b1 w x).2.1] ++ (c ++ (w ++ x))))) ∧
      (40 ≤ x.length → adjust (if x.getD 6 0 = NEXTHDR_FRAGMENT then 28 else 20)
        ([b0] ++ ([(head6 b0 b1 w x).2.1] ++ (c ++ (w ++ x)))) =
          some ([b0] ++ ([(head6 b0 b1 w x).2.1] ++ (c ++ ((head6 b0 b1 w x).2.2 ++ x))))) ∧
      (x.length < 40 → (head6 b0 b1 w x).2.2 = w) := by
  have hget (a b : UInt8) : ([a] ++ ([b] ++ (c ++ (w ++ x))))[1]? = some b := by simp
  have hcode (a b b' : UInt8) : poke? ([a] ++ ([b] ++ (c ++ (w ++ x)))) 1 [b'] =
      some ([a] ++ ([b'] ++ (c ++ (w ++ x)))) := by
    rw [poke?_skip (by simp)]
    simp only [List.length_cons, List.length_nil, Nat.zero_add, Nat.sub_self,
      poke?_head (show [b'].length = [b].length from rfl), Option.map_some]
  have htype (n0 t : UInt8) (rest : List UInt8) : poke? ([n0] ++ rest) 0 [t] = some ([t] ++ rest) :=
    poke?_head rfl
  rcases hb with rfl | rfl | rfl
  · have hhead : head6 ICMPV6_DEST_UNREACH b1 w x =
        (ICMP_DEST_UNREACH, if b1 = 4 then 3 else b1, w) := rfl
    rw [hhead]
    refine ⟨fun _ old => some old, fun n0 rest => ?_, fun _ => rfl, fun _ => rfl⟩
    simp only [head6to4, if_neg (show ICMPV6_DEST_UNREACH ≠ ICMPV6_ECHO_REPLY by decide),
      if_neg (show ICMPV6_DEST_UNREACH ≠ ICMPV6_ECHO_REQUEST by decide), if_true,
      Option.bind_eq_bind, htype, Option.bind_some, hget]
    by_cases h4 : b1 = 4
    · simp only [h4, if_true, hcode, Option.bind_some]
    · simp only [h4, if_false]
  · exact ⟨fun _ old => some old, fun n0 rest => rfl, fun _ => rfl, fun _ => rfl⟩
  · have hhead : head6 ICMPV6_PKT_TOOBIG b1 w x =
        (ICMP_DEST_UNREACH, ICMP_FRAG_NEEDED, mtu6 x w) := rfl
    rw [hhead]
    refine ⟨adjustMtu, fun n0 rest => ?_, fun h40 => ?_, fun hlt => ?_⟩
    · rw [head6to4, if_neg (by decide), if_neg (by decide), if_neg (by decide), if_neg (by decide),
        if_pos rfl]
      simp only [Option.bind_eq_bind, htype, Option.bind_some, hcode]
    · rw [adjustMtu_eq hc hw, mtu6, if_pos h40]
    · rw [mtu6, if_neg (by omega)]

/-- The echo types copy everything behind the header. -/
theorem head6to4_echo (e : ByteOrder) {b0 b1 n0 : UInt8} {w x rest old : List UInt8}
    (hb : b0 = ICMPV6_ECHO_REPLY ∨ b0 = ICMPV6_ECHO_REQUEST) :
    head6to4 e b0 ([n0] ++ rest) old =
        some ⟨[(head6 b0 b1 w x).1] ++ rest, old, NO_PROTO, 8, 8⟩ ∧
      (head6 b0 b1 w x).2 = (b1, w) := by
  rcases hb with rfl | rfl
  · have hpoke : poke? ([n0] ++ rest) 0 [ICMP_ECHOREPLY] = some ([ICMP_ECHOREPLY] ++ rest) :=
      poke?_head rfl
    rw [head6to4, if_pos rfl, hpoke]
    exact ⟨rfl, rfl⟩
  · have hpoke : poke? ([n0] ++ rest) 0 [ICMP_ECHO] = some ([ICMP_ECHO] ++ rest) := poke?_head rfl
    rw [head6to4, if_neg (by decide), if_pos rfl, hpoke]
    exact ⟨rfl, rfl⟩

/-- Any other type is copied with its header. -/
theorem head6to4_other (e : ByteOrder) {b0 b1 : UInt8} {w x new old : List UInt8}
    (hecho : ¬(b0 = ICMPV6_ECHO_REPLY ∨ b0 = ICMPV6_ECHO_REQUEST)) (herr : ¬IsError6 b0) :
    head6to4 e b0 new old = some ⟨new, old, NO_PROTO, 0, 0⟩ ∧ head6 b0 b1 w x = (b0, b1, w) := by
  simp only [IsError6, not_or] at hecho herr
  simp only [head6to4, head6, hecho.1, hecho.2, herr.1, herr.2.1, herr.2.2, if_false]
  exact ⟨rfl, trivial⟩

/-! ## Lengths -/

theorem quote6to4_keeps {e : ByteOrder} {adjust : UInt32 → List UInt8 → Option (List UInt8)}
    (hadj : ∀ less old old', adjust less old = some old' → old'.length = old.length)
    {new old : List UInt8} {p : Progress} (h : quote6to4 e adjust new old = some p) :
    p.Keeps new old := by
  unfold quote6to4 at h
  split at h
  · simp only [Option.bind_eq_bind, Option.bind_eq_some_iff] at h
    obtain ⟨oldIn, -, newIn, hn, nexthdr, -, h⟩ := h
    split at h
    · simp only [Option.bind_eq_some_iff] at h
      obtain ⟨⟨proto, newOut⟩, hr, old', ho, hp⟩ := h
      obtain rfl := Option.some.inj hp
      exact ⟨length_replaced hn (le_of_iphdr6to4Trans hr).2.2, hadj _ _ _ ho⟩
    · simp only [Option.bind_eq_some_iff] at h
      obtain ⟨old', ho, ⟨proto, newOut⟩, hr, hp⟩ := h
      obtain rfl := Option.some.inj hp
      exact ⟨length_replaced hn (le_of_iphdr6to4Trans hr).2.2, hadj _ _ _ ho⟩
  · obtain rfl := Option.some.inj h
    exact ⟨rfl, rfl⟩

theorem adjustMtu_length {less : UInt32} {old old' : List UInt8}
    (h : adjustMtu less old = some old') : old'.length = old.length := by
  simp only [adjustMtu, Option.bind_eq_bind, Option.bind_eq_some_iff, store32?] at h
  obtain ⟨mtu, -, h⟩ := h
  exact poke?_length h

theorem head6to4_keeps {e : ByteOrder} {type : UInt8} {new old : List UInt8} {p : Progress}
    (h : head6to4 e type new old = some p) : p.Keeps new old := by
  have hsame : ∀ (less : UInt32) (old old' : List UInt8), some old = some old' →
      old'.length = old.length := by
    rintro - old old' h
    rw [Option.some.inj h]
  unfold head6to4 at h
  split at h
  · obtain ⟨n, hn, hp⟩ := Option.bind_eq_some_iff.mp h
    obtain rfl := Option.some.inj hp
    exact ⟨poke?_length hn, rfl⟩
  split at h
  · obtain ⟨n, hn, hp⟩ := Option.bind_eq_some_iff.mp h
    obtain rfl := Option.some.inj hp
    exact ⟨poke?_length hn, rfl⟩
  split at h
  · obtain ⟨n, hn, h⟩ := Option.bind_eq_some_iff.mp h
    obtain ⟨code, -, h⟩ := Option.bind_eq_some_iff.mp h
    split at h
    · obtain ⟨old', ho, hp⟩ := Option.bind_eq_some_iff.mp h
      exact (quote6to4_keeps hsame hp).trans (poke?_length hn) (poke?_length ho)
    · exact (quote6to4_keeps hsame h).trans (poke?_length hn) rfl
  split at h
  · obtain ⟨n, hn, hp⟩ := Option.bind_eq_some_iff.mp h
    exact (quote6to4_keeps hsame hp).trans (poke?_length hn) rfl
  split at h
  · obtain ⟨n, hn, h⟩ := Option.bind_eq_some_iff.mp h
    obtain ⟨old', ho, hp⟩ := Option.bind_eq_some_iff.mp h
    exact (quote6to4_keeps (fun _ _ _ => adjustMtu_length) hp).trans (poke?_length hn)
      (poke?_length ho)
  · obtain rfl := Option.some.inj h
    exact ⟨rfl, rfl⟩

theorem inner6to4_keeps
    {icmp : List UInt8 → List UInt8 → Option (Bool × List UInt8 × List UInt8)}
    (hicmp : ∀ new old r, icmp new old = some r →
      r.2.1.length = new.length ∧ r.2.2.length = old.length)
    {p q : Progress} (h : inner6to4 icmp p = some q) : q.Keeps p.new p.old := by
  unfold inner6to4 at h
  split at h
  · exact Progress.icmp_keeps hicmp h
  split at h
  · simp only [Option.bind_eq_bind, Option.bind_eq_some_iff] at h
    obtain ⟨src, -, dst, -, h⟩ := h
    exact Progress.transport_keeps (fun new old r hr => transportTrans_length hr) h
  split at h
  · simp only [Option.bind_eq_bind, Option.bind_eq_some_iff] at h
    obtain ⟨src, -, dst, -, h⟩ := h
    exact Progress.transport_keeps (fun new old r hr => transportTrans_length hr) h
  · obtain rfl := Option.some.inj h
    exact ⟨rfl, rfl⟩

/-- `icmp6to4_trans` returns 0 for a packet with a header, and there must be
room for the new header. -/
theorem icmp6to4Trans_length {e : ByteOrder} {depth : Nat} {new old : List UInt8}
    {r : Bool × List UInt8 × List UInt8} (h : icmp6to4Trans e depth new old = some r) :
    r.1 = decide (8 ≤ old.length) ∧ r.2.1.length = new.length ∧ r.2.2.length = old.length ∧
      (8 ≤ old.length → 8 ≤ new.length) := by
  induction depth generalizing new old r with
  | zero => cases h
  | succ depth ih =>
      rw [icmp6to4Trans] at h
      by_cases hshort : old.length < ICMP_HEADER_LEN
      · rw [if_pos hshort] at h
        obtain rfl := Option.some.inj h
        rw [ICMP_HEADER_LEN] at hshort
        exact ⟨by simp; omega, rfl, rfl, fun h8 => by omega⟩
      · rw [if_neg hshort] at h
        simp only [Option.bind_eq_bind, Option.bind_eq_some_iff] at h
        obtain ⟨type, -, p, hp, q, hq, q', hq', h⟩ := h
        have hhead := head6to4_keeps hp
        obtain ⟨hfill, h8⟩ := Progress.fill_keeps hq
        have hinner := inner6to4_keeps (fun new old r hr => ⟨(ih hr).2.1, (ih hr).2.2.1⟩) hq'
        obtain ⟨hok, hnew, hold, -⟩ := finish_length h
        rw [ICMP_HEADER_LEN] at hshort
        refine ⟨by simp [hok]; omega, ?_, ?_, fun _ => by rw [← hhead.1]; exact h8⟩
        · rw [hnew, hinner.1, hfill.1, hhead.1]
        · rw [hold, hinner.2, hfill.2, hhead.2]

/-! ## A level -/

/-- A packet shorter than a header is left alone. -/
theorem icmp6to4Trans_short (e : ByteOrder) (depth : Nat) (new : List UInt8) {old : List UInt8}
    (h : old.length < 8) : icmp6to4Trans e (depth + 1) new old = some (false, new, old) := by
  rw [icmp6to4Trans]
  exact if_pos h

/-- There is no room for a header. -/
theorem icmp6to4Trans_cramped (e : ByteOrder) (depth : Nat) {new old : List UInt8}
    (ho : 8 ≤ old.length) (hn : new.length < 8) : icmp6to4Trans e depth new old = none := by
  rw [Option.eq_none_iff_forall_ne_some]
  intro r hr
  have hle := (icmp6to4Trans_length hr).2.2.2 ho
  omega

theorem inner6to4_none
    (icmp : List UInt8 → List UInt8 → Option (Bool × List UInt8 × List UInt8))
    (new old : List UInt8) (ready pass : Nat) :
    inner6to4 icmp ⟨new, old, NO_PROTO, ready, pass⟩ = some ⟨new, old, NO_PROTO, ready, pass⟩ := rfl

/-- What follows the quoted packet `q`. -/
def nested6 (e : ByteOrder) (depth : Nat) (q new old : List UInt8) :
    Option (List UInt8 × List UInt8) :=
  let src := ((header4 e q).drop 12).take 4
  let dst := ((header4 e q).drop 16).take 4
  if protocol6 q = IPPROTO_ICMP then
    (icmp6to4Trans e depth new old).bind fun r => settle (if r.1 then 8 else 0) r.2.1 r.2.2
  else if protocol6 q = IPPROTO_TCP then
    (tcp6to4Trans new old src dst).bind fun r => settle (if r.1 then 20 else 0) r.2 old
  else if protocol6 q = IPPROTO_UDP then
    (udp6to4Trans new old src dst).bind fun r => settle (if r.1 then 8 else 0) r.2 old
  else settle 0 new old

/-- The checksum of a level. -/
abbrev magic4 : Nat → Nat → UInt16 := fun _ sum => checksum sum

section Level6

variable (e : ByteOrder) (depth : Nat) {b0 b1 n0 n1 : UInt8} {c w m g : List UInt8}

/-- A packet with a header goes through the steps. -/
theorem icmp6to4Trans_steps (hc : c.length = 2) (hw : w.length = 4) (new x : List UInt8) :
    icmp6to4Trans e (depth + 1) new ([b0] ++ ([b1] ++ (c ++ (w ++ x)))) =
      (head6to4 e b0 new ([b0] ++ ([b1] ++ (c ++ (w ++ x))))).bind fun p =>
        p.fill.bind fun p => (inner6to4 (icmp6to4Trans e depth) p).bind (finish magic4) := by
  have hlen : ¬([b0] ++ ([b1] ++ (c ++ (w ++ x)))).length < ICMP_HEADER_LEN := by
    simp [ICMP_HEADER_LEN, hc, hw]
    omega
  have hget : ([b0] ++ ([b1] ++ (c ++ (w ++ x))))[0]? = some b0 := by simp
  rw [icmp6to4Trans, if_neg hlen, hget]
  rfl

/-- Without a quote the rest is copied. -/
theorem icmp6to4Trans_copied (hc : c.length = 2) (hw : w.length = 4) (hm : m.length = 2)
    (hg : g.length = 4) {x : List UInt8} (hquote : IsError6 b0 → x.length < 40) (new : List UInt8) :
    icmp6to4Trans e (depth + 1) ([n0] ++ ([n1] ++ (m ++ (g ++ new))))
        ([b0] ++ ([b1] ++ (c ++ (w ++ x)))) =
      let (t, code, w') := head6 b0 b1 w x
      some (true, sealed magic4 [t, code] (w' ++ copy new x),
        [b0] ++ ([code] ++ (c ++ (w' ++ x)))) := by
  rw [icmp6to4Trans_steps e depth hc hw]
  have hw' := head6_length b0 b1 hw x
  by_cases herr : IsError6 b0
  · obtain ⟨adjust, hq, -, hkeep⟩ := @head6to4_error e b0 b1 c w herr hc hw x
    have hkeep := hkeep (hquote herr)
    rw [hq]
    generalize head6 b0 b1 w x = r at hw' hkeep ⊢
    obtain ⟨t, code, w'⟩ := r
    dsimp only at hkeep
    subst hkeep
    have hshort := @quote6to4_short e adjust ([t] ++ ([n1] ++ (m ++ (g ++ new))))
      ([b0] ++ ([code] ++ (c ++ w'))) x (by simp [hc, hw']) (hquote herr)
    simp only [List.append_assoc] at hshort
    simp only [hshort, Option.bind_some, Progress.fill_eq hm hg hc hw', inner6to4_none,
      finish_copied magic4 hm hc hw']
  by_cases hecho : b0 = ICMPV6_ECHO_REPLY ∨ b0 = ICMPV6_ECHO_REQUEST
  · obtain ⟨hhead, hkeep⟩ := @head6to4_echo e b0 b1 n0 w x
      ([n1] ++ (m ++ (g ++ new))) ([b0] ++ ([b1] ++ (c ++ (w ++ x)))) hecho
    generalize head6 b0 b1 w x = r at hw' hhead hkeep ⊢
    obtain ⟨t, code, w'⟩ := r
    obtain ⟨rfl, rfl⟩ := Prod.mk.inj hkeep
    simp only [hhead, Option.bind_some, Progress.fill_eq hm hg hc hw', inner6to4_none,
      finish_copied magic4 hm hc hw']
  · obtain ⟨hhead, hkeep⟩ := @head6to4_other e b0 b1 w x
      ([n0] ++ ([n1] ++ (m ++ (g ++ new)))) ([b0] ++ ([b1] ++ (c ++ (w ++ x)))) hecho herr
    simp only [hhead, hkeep, Option.bind_some, Progress.fill_eq hm hg hc hw, inner6to4_none,
      finish_whole magic4 hm hc]

/-- The quoted headers are not all there, or there is no room for the new
one. -/
theorem icmp6to4Trans_narrow (hc : c.length = 2) (hw : w.length = 4) (hm : m.length = 2)
    (hg : g.length = 4) (herr : IsError6 b0) {x : List UInt8} (hx : 40 ≤ x.length)
    {new : List UInt8} (h : ¬(Headers6 x ∧ 20 ≤ new.length)) :
    icmp6to4Trans e (depth + 1) ([n0] ++ ([n1] ++ (m ++ (g ++ new))))
      ([b0] ++ ([b1] ++ (c ++ (w ++ x)))) = none := by
  obtain ⟨adjust, hq, -, -⟩ := @head6to4_error e b0 b1 c w herr hc hw x
  rw [icmp6to4Trans_steps e depth hc hw, hq, Option.eq_none_iff_forall_ne_some]
  intro r hr
  obtain ⟨p, hp, -⟩ := Option.bind_eq_some_iff.mp hr
  refine h (@le_of_quote6to4 e adjust ([b0] ++ ([(head6 b0 b1 w x).2.1] ++ (c ++ w)))
    ([(head6 b0 b1 w x).1] ++ ([n1] ++ (m ++ g))) new x (by simp [hc, hw]) (by simp [hm, hg]) hx p ?_)
  simpa only [List.append_assoc] using hp

/-- An error with a quote: the new header, the header of the quote, and what
becomes of the rest. -/
theorem icmp6to4Trans_quoted (hc : c.length = 2) (hw : w.length = 4) (hm : m.length = 2)
    (hg : g.length = 4) (herr : IsError6 b0) {q : List UInt8} (y : List UInt8)
    (hx : Headers6 (q ++ y)) (hq : q.length = quoteLen6 (q ++ y)) {was : List UInt8}
    (hwas : was.length = 20) (new : List UInt8) :
    icmp6to4Trans e (depth + 1) ([n0] ++ ([n1] ++ (m ++ (g ++ (was ++ new)))))
        ([b0] ++ ([b1] ++ (c ++ (w ++ (q ++ y))))) =
      let (t, code, w') := head6 b0 b1 w (q ++ y)
      (nested6 e depth (q ++ y) new y).map fun r =>
        (true, sealed magic4 [t, code] (w' ++ (header4 e (q ++ y) ++ r.1)),
          [b0] ++ ([code] ++ (c ++ (w' ++ (q ++ r.2))))) := by
  obtain ⟨adjust, hqu, hadj, -⟩ := @head6to4_error e b0 b1 c w herr hc hw (q ++ y)
  have hadj := hadj hx.1
  rw [icmp6to4Trans_steps e depth hc hw, hqu]
  have hw' := head6_length b0 b1 hw (q ++ y)
  generalize head6 b0 b1 w (q ++ y) = r at hw' hadj ⊢
  obtain ⟨t, code, w'⟩ := r
  have hquote := @quote6to4_eq e adjust ([b0] ++ ([code] ++ (c ++ w)))
    ([b0] ++ ([code] ++ (c ++ w'))) ([t] ++ ([n1] ++ (m ++ g))) was (q ++ y) (by simp [hc, hw])
    (by simp [hm, hg]) hwas hx (by simpa only [List.append_assoc] using hadj) new
  simp only [List.append_assoc] at hquote
  simp only [hquote, Option.bind_some, Progress.fill_eq hm hg hc hw']
  have hlen := (iphdr6to4Trans_quote e hx).1
  simp only [nested6]
  -- the quoted packet
  generalize header4 e (q ++ y) = quote at hlen ⊢
  obtain ⟨a, sd, ha, hsd, rfl⟩ := exists_split 12 8 hlen
  obtain ⟨s, d, hs, hd, rfl⟩ := exists_split 4 4 hsd
  have hsrc : ((a ++ (s ++ d)).drop 12).take 4 = s := by
    rw [List.drop_left' ha, List.take_left' hs]
  have hdst : ((a ++ (s ++ d)).drop 16).take 4 = d := by
    rw [← List.append_assoc, List.drop_left' (by simp [ha, hs]), List.take_of_length_le (by omega)]
  have hsrc' : peek? ([t] ++ ([code] ++ (m ++ (w' ++ ((a ++ (s ++ d)) ++ new))))) 20 4 = some s := by
    simp only [List.append_assoc, peek?_skip, peek?_head, List.length_cons, List.length_nil,
      Nat.zero_add, Nat.reduceLeDiff, Nat.reduceSub, hm, hw', ha, hs]
  have hdst' : peek? ([t] ++ ([code] ++ (m ++ (w' ++ ((a ++ (s ++ d)) ++ new))))) 24 4 = some d := by
    simp only [List.append_assoc, peek?_skip, peek?_head, List.length_cons, List.length_nil,
      Nat.zero_add, Nat.reduceLeDiff, Nat.reduceSub, hm, hw', ha, hs, hd]
  have hready : IP_ICMP_LEN = 8 + (a ++ (s ++ d)).length := by rw [hlen]; rfl
  have hold (z : List UInt8) : [b0] ++ ([code] ++ (c ++ (w' ++ (q ++ z)))) =
      ([b0] ++ ([code] ++ (c ++ (w' ++ q)))) ++ z := by simp
  have hpass : 8 + quoteLen6 (q ++ y) = ([b0] ++ ([code] ++ (c ++ (w' ++ q)))).length := by
    simp [hc, hw', hq]
    omega
  rw [hsrc, hdst]
  generalize a ++ (s ++ d) = quote at hsrc' hdst' hready ⊢
  simp only [hold]
  rw [hpass]
  generalize [b0] ++ ([code] ++ (c ++ (w' ++ q))) = passed
  by_cases hicmp : protocol6 (q ++ y) = IPPROTO_ICMP
  · simp only [inner6to4, hicmp, if_true]
    exact icmp_finish magic4 hm hw' hready fun new old r hr =>
      ⟨(icmp6to4Trans_length hr).2.2.1, (icmp6to4Trans_length hr).1⟩
  by_cases htcp : protocol6 (q ++ y) = IPPROTO_TCP
  · simp only [inner6to4, htcp, if_true, Option.bind_eq_bind, hsrc', hdst', Option.bind_some]
    exact transport_finish magic4 hm hw' hready fun new old new' hr => le_of_transportTrans hr
  by_cases hudp : protocol6 (q ++ y) = IPPROTO_UDP
  · simp only [inner6to4, hudp, if_true, Option.bind_eq_bind, hsrc', hdst', Option.bind_some]
    exact transport_finish magic4 hm hw' hready fun new old new' hr => le_of_transportTrans hr
  · simp only [inner6to4, hicmp, htcp, hudp, if_false, Option.bind_some]
    exact finish_settle magic4 hm hw' hready rfl (Nat.zero_le _)

end Level6

end UbntSdk.Ivi
