/-
UbntSdk.Ivi.Icmp4to6Theorems — what `icmp4to6_trans` computes.

A level of ICMP is one of five cases: a packet shorter than a header, one
without a quote (`icmp4to6Trans_copied`), one with a quote
(`icmp4to6Trans_quoted`), and the two where an access leaves its buffer
(`icmp4to6Trans_blind`, `icmp4to6Trans_narrow`; `icmp4to6Trans_cramped` for
the header itself). `nested4` is what becomes of the packet behind a quoted
header, and goes on with the next level.
-/
import UbntSdk.Ivi.PayloadTheorems

namespace UbntSdk.Ivi

open UbntSdk.Lib

/-! ## The header -/

/-- The first switch: the new type, the code, and the word behind the
checksum. `x` is what follows the header. -/
def head4 (e : ByteOrder) (type code : UInt8) (w x : List UInt8) : UInt8 × UInt8 × List UInt8 :=
  if type = ICMP_ECHOREPLY then (ICMPV6_ECHO_REPLY, code, w)
  else if type = ICMP_ECHO then (ICMPV6_ECHO_REQUEST, code, w)
  else if type = ICMP_DEST_UNREACH then
    if code ≠ ICMP_FRAG_NEEDED then (ICMPV6_DEST_UNREACH, if code = 3 then 4 else code, w)
    else
      let fragOff := ofWord16 e ((x.drop 6).take 2)
      let more := if fragOff &&& 0x4000 = 0 ∨ fragOff &&& 0x2000 ≠ 0 then 28 else 20
      (ICMPV6_PKT_TOOBIG, code, be32 (be32ToCpu e (ofWord16 e (w.drop 2)).toUInt32 + more))
  else if type = ICMP_TIME_EXCEEDED then (ICMPV6_TIME_EXCEED, code, w)
  else (type, code, w)

/-- The types that quote a packet. -/
def IsError4 (type : UInt8) : Prop := type = ICMP_DEST_UNREACH ∨ type = ICMP_TIME_EXCEEDED

/-- The quoted header is looked at before its length is. -/
def LooksAhead (type code : UInt8) : Prop := type = ICMP_DEST_UNREACH ∧ code = ICMP_FRAG_NEEDED

instance (type : UInt8) : Decidable (IsError4 type) := inferInstanceAs (Decidable (_ ∨ _))

instance (type code : UInt8) : Decidable (LooksAhead type code) :=
  inferInstanceAs (Decidable (_ ∧ _))

theorem head4_length (e : ByteOrder) (type code : UInt8) {w : List UInt8} (hw : w.length = 4)
    (x : List UInt8) : (head4 e type code w x).2.2.length = 4 := by
  unfold head4
  split
  · exact hw
  split
  · exact hw
  split
  · split
    · exact hw
    · exact be32_length _
  split
  · exact hw
  · exact hw

theorem unreach4to6_eq (e : ByteOrder) {b0 b1 n0 : UInt8} {c w x rest : List UInt8}
    (hb : b0 = ICMP_DEST_UNREACH) (hc : c.length = 2) (hw : w.length = 4)
    (hx : LooksAhead b0 b1 → 8 ≤ x.length) :
    unreach4to6 e ([n0] ++ rest) ([b0] ++ ([b1] ++ (c ++ (w ++ x)))) =
      some ([(head4 e b0 b1 w x).1] ++ rest,
        [b0] ++ ([(head4 e b0 b1 w x).2.1] ++ (c ++ ((head4 e b0 b1 w x).2.2 ++ x)))) := by
  have hget (b : UInt8) : ([b0] ++ ([b] ++ (c ++ (w ++ x))))[1]? = some b := by simp
  subst hb
  by_cases hcode : b1 = ICMP_FRAG_NEEDED
  · subst hcode
    have h8 := hx ⟨rfl, rfl⟩
    have hfrag : peek? x 6 2 = some ((x.drop 6).take 2) := if_pos (by omega)
    have hmtu : peek? (w ++ x) 2 2 = some (w.drop 2) := by
      rw [peek?, if_pos (by simp; omega), List.drop_append_of_le_length (by omega),
        List.take_append_of_le_length (by simp; omega), List.take_of_length_le (by simp; omega)]
    simp only [unreach4to6, hget, Option.bind_eq_bind, Option.bind_some, ne_eq,
      not_true_eq_false, if_false, load16?, ICMP_HEADER_LEN]
    simp only [peek?_skip, poke?_skip, poke?_head, List.length_cons, List.length_nil, Nat.zero_add,
      Nat.reduceAdd, Nat.reduceLeDiff, Nat.reduceSub, hc, hw, hfrag, hmtu, be32_length,
      Option.map_some, Option.bind_some]
    rfl
  · have hhead : head4 e ICMP_DEST_UNREACH b1 w x =
        (ICMPV6_DEST_UNREACH, if b1 = 3 then 4 else b1, w) := by
      simp only [head4, ne_eq, hcode, not_false_eq_true, if_true]
      rfl
    simp only [unreach4to6, hget, Option.bind_eq_bind, Option.bind_some, ne_eq, hcode,
      not_false_eq_true, if_true, hhead]
    by_cases h3 : b1 = 3
    · simp only [h3, if_true, poke?_skip, poke?_head, List.length_cons, List.length_nil, Nat.zero_add,
        le_refl, Nat.sub_self, Option.map_some, Option.bind_some]
      rfl
    · simp only [h3, if_false, poke?_head, List.length_cons, List.length_nil, Option.bind_some]
      rfl

/-- The look at a header that is not there. -/
theorem unreach4to6_none (e : ByteOrder) {b0 b1 : UInt8} {c w x new : List UInt8}
    (hb : LooksAhead b0 b1) (hc : c.length = 2) (hw : w.length = 4) (hx : x.length < 8) :
    unreach4to6 e new ([b0] ++ ([b1] ++ (c ++ (w ++ x)))) = none := by
  obtain ⟨rfl, rfl⟩ := hb
  have hget (b : UInt8) : ([ICMP_DEST_UNREACH] ++ ([b] ++ (c ++ (w ++ x))))[1]? = some b := by simp
  have hfrag : peek? x 6 2 = none := peek?_eq_none.mpr (by omega)
  rw [Option.eq_none_iff_forall_ne_some]
  intro r hr
  simp only [unreach4to6, hget, Option.bind_eq_bind, Option.bind_some, ne_eq, not_true_eq_false,
    if_false, load16?, ICMP_HEADER_LEN, Option.bind_eq_some_iff] at hr
  obtain ⟨n, -, f, hf, -⟩ := hr
  simp only [peek?_skip, List.length_cons, List.length_nil, Nat.zero_add, Nat.reduceAdd,
    Nat.reduceLeDiff, Nat.reduceSub, hc, hw, hfrag, Option.map_none] at hf
  cases hf

theorem getNewHeaderlen4to6_quote (h : Iphdr) (data : List UInt8) :
    getNewHeaderlen4to6 (h.bytes ++ data) = some h.headerLen6 := getNewHeaderlen4to6_eq h data

theorem quote4to6_short (e : ByteOrder) (srcPrefix dstPrefix : UInt32) (new : List UInt8)
    {b x : List UInt8} (hb : b.length = 8) (hx : x.length < 20) :
    quote4to6 e srcPrefix dstPrefix new (b ++ x) = some ⟨new, b ++ x, NO_PROTO, 8, 8⟩ := by
  rw [quote4to6, if_neg]
  · rfl
  · simp only [IP_ICMP_LEN, List.length_append, hb]
    omega

theorem quote4to6_eq (e : ByteOrder) (srcPrefix dstPrefix : UInt32) {b n was : List UInt8}
    (hb : b.length = 8) (hn : n.length = 8) (h : Iphdr) (hw : was.length = h.headerLen6)
    (x new : List UInt8) :
    quote4to6 e srcPrefix dstPrefix (n ++ (was ++ new)) (b ++ (h.bytes ++ x)) =
      some ⟨n ++ (h.header6 e srcPrefix dstPrefix (h.headerLen6 - IPV6_HEADER_LEN) was ++ new),
        b ++ (h.bytes ++ x), nexthdrOf h.protocol, 8 + h.headerLen6, IP_ICMP_LEN⟩ := by
  have hlen : IP_ICMP_LEN ≤ (b ++ (h.bytes ++ x)).length := by simp [IP_ICMP_LEN, hb]; omega
  have htake : (n ++ (was ++ new)).take ICMP_HEADER_LEN = n := List.take_left' hn
  simp only [quote4to6, if_pos hlen, Option.bind_eq_bind, suffix?_append hb, suffix?_append hn,
    ICMP_HEADER_LEN, Option.bind_some, getNewHeaderlen4to6_quote, iphdr4to6Trans_header e h x hw]
  rw [ICMP_HEADER_LEN] at htake
  rw [htake]
  rfl

theorem quote4to6_none (e : ByteOrder) (srcPrefix dstPrefix : UInt32) {b n new : List UInt8}
    (hb : b.length = 8) (hn : n.length = 8) (h : Iphdr) (hw : new.length < h.headerLen6)
    (x : List UInt8) :
    quote4to6 e srcPrefix dstPrefix (n ++ new) (b ++ (h.bytes ++ x)) = none := by
  have hlen : IP_ICMP_LEN ≤ (b ++ (h.bytes ++ x)).length := by simp [IP_ICMP_LEN, hb]; omega
  simp only [quote4to6, if_pos hlen, Option.bind_eq_bind, suffix?_append hb, suffix?_append hn,
    ICMP_HEADER_LEN, Option.bind_some, getNewHeaderlen4to6_quote, iphdr4to6Trans_none e h x hw]
  rfl

/-- An error type comes down to its quote. -/
theorem head4to6_error (e : ByteOrder) (srcPrefix dstPrefix : UInt32) {b0 b1 n0 : UInt8}
    {c w x rest : List UInt8} (hb : IsError4 b0) (hc : c.length = 2) (hw : w.length = 4)
    (hx : LooksAhead b0 b1 → 8 ≤ x.length) :
    head4to6 e srcPrefix dstPrefix b0 ([n0] ++ rest) ([b0] ++ ([b1] ++ (c ++ (w ++ x)))) =
      quote4to6 e srcPrefix dstPrefix ([(head4 e b0 b1 w x).1] ++ rest)
        ([b0] ++ ([(head4 e b0 b1 w x).2.1] ++ (c ++ ((head4 e b0 b1 w x).2.2 ++ x)))) := by
  rcases hb with rfl | rfl
  · have hun := @unreach4to6_eq e ICMP_DEST_UNREACH b1 n0 c w x rest rfl hc hw hx
    rw [head4to6, if_neg (by decide), if_neg (by decide), if_pos rfl]
    simp only [Option.bind_eq_bind, hun, Option.bind_some]
  · have hhead : head4 e ICMP_TIME_EXCEEDED b1 w x = (ICMPV6_TIME_EXCEED, b1, w) := rfl
    have hpoke : poke? ([n0] ++ rest) 0 [ICMPV6_TIME_EXCEED] = some ([ICMPV6_TIME_EXCEED] ++ rest) :=
      poke?_head rfl
    rw [head4to6, if_neg (by decide), if_neg (by decide), if_neg (by decide), if_pos rfl, hhead,
      Option.bind_eq_bind, hpoke]
    rfl

theorem head4to6_none (e : ByteOrder) (srcPrefix dstPrefix : UInt32) {b0 b1 : UInt8}
    {c w x new : List UInt8} (hb : LooksAhead b0 b1) (hc : c.length = 2) (hw : w.length = 4)
    (hx : x.length < 8) :
    head4to6 e srcPrefix dstPrefix b0 new ([b0] ++ ([b1] ++ (c ++ (w ++ x)))) = none := by
  have hnone := @unreach4to6_none e b0 b1 c w x new hb hc hw hx
  rw [head4to6, hb.1, if_neg (by decide), if_neg (by decide), if_pos rfl]
  rw [hb.1] at hnone
  rw [hnone]
  rfl

/-- The echo types copy everything behind the header. -/
theorem head4to6_echo (e : ByteOrder) (srcPrefix dstPrefix : UInt32) {b0 b1 n0 : UInt8}
    {w x rest old : List UInt8} (hb : b0 = ICMP_ECHOREPLY ∨ b0 = ICMP_ECHO) :
    head4to6 e srcPrefix dstPrefix b0 ([n0] ++ rest) old =
        some ⟨[(head4 e b0 b1 w x).1] ++ rest, old, NO_PROTO, 8, 8⟩ ∧
      (head4 e b0 b1 w x).2 = (b1, w) := by
  rcases hb with rfl | rfl
  · have hpoke : poke? ([n0] ++ rest) 0 [ICMPV6_ECHO_REPLY] = some ([ICMPV6_ECHO_REPLY] ++ rest) :=
      poke?_head rfl
    rw [head4to6, if_pos rfl, hpoke]
    exact ⟨rfl, rfl⟩
  · have hpoke : poke? ([n0] ++ rest) 0 [ICMPV6_ECHO_REQUEST] =
        some ([ICMPV6_ECHO_REQUEST] ++ rest) := poke?_head rfl
    rw [head4to6, if_neg (by decide), if_pos rfl, hpoke]
    exact ⟨rfl, rfl⟩

/-- Any other type is copied with its header. -/
theorem head4to6_other (e : ByteOrder) (srcPrefix dstPrefix : UInt32) {b0 b1 : UInt8}
    {w x new old : List UInt8} (hecho : ¬(b0 = ICMP_ECHOREPLY ∨ b0 = ICMP_ECHO))
    (herr : ¬IsError4 b0) :
    head4to6 e srcPrefix dstPrefix b0 new old = some ⟨new, old, NO_PROTO, 0, 0⟩ ∧
      head4 e b0 b1 w x = (b0, b1, w) := by
  simp only [IsError4, not_or] at hecho herr
  simp only [head4to6, head4, hecho.1, hecho.2, herr.1, herr.2, if_false]
  exact ⟨rfl, trivial⟩

theorem unreach4to6_keeps {e : ByteOrder} {new old : List UInt8} {r : List UInt8 × List UInt8}
    (h : unreach4to6 e new old = some r) : r.1.length = new.length ∧ r.2.length = old.length := by
  simp only [unreach4to6, Option.bind_eq_bind, Option.bind_eq_some_iff] at h
  obtain ⟨code, -, h⟩ := h
  split at h
  · simp only [Option.bind_eq_some_iff] at h
    obtain ⟨n1, h1, h⟩ := h
    split at h
    · obtain ⟨o1, h2, hr⟩ := Option.bind_eq_some_iff.mp h
      obtain rfl := Option.some.inj hr
      exact ⟨poke?_length h1, poke?_length h2⟩
    · obtain rfl := Option.some.inj h
      exact ⟨poke?_length h1, rfl⟩
  · simp only [Option.bind_eq_some_iff] at h
    obtain ⟨n1, h1, f, -, mtu, -, o1, h2, hr⟩ := h
    obtain rfl := Option.some.inj hr
    exact ⟨poke?_length h1, poke?_length h2⟩

theorem quote4to6_keeps {e : ByteOrder} {srcPrefix dstPrefix : UInt32} {new old : List UInt8}
    {p : Progress} (h : quote4to6 e srcPrefix dstPrefix new old = some p) : p.Keeps new old := by
  by_cases hlen : IP_ICMP_LEN ≤ old.length
  · have hnew : 8 ≤ new.length := by
      simp only [quote4to6, if_pos hlen, Option.bind_eq_bind, Option.bind_eq_some_iff] at h
      obtain ⟨oldIn, -, newIn, hn, -⟩ := h
      exact (eq_of_suffix? hn).1
    rw [IP_ICMP_LEN] at hlen
    obtain ⟨b, oldIn, hb, hin, rfl⟩ := exists_split 8 (old.length - 8)
      (show old.length = 8 + (old.length - 8) by omega)
    obtain ⟨n, newIn, hn, -, rfl⟩ := exists_split 8 (new.length - 8)
      (show new.length = 8 + (new.length - 8) by omega)
    obtain ⟨hdr, x, rfl⟩ := Iphdr.exists_append (show 20 ≤ oldIn.length by omega)
    by_cases hroom : newIn.length < hdr.headerLen6
    · rw [quote4to6_none e _ _ hb hn hdr hroom] at h
      cases h
    · obtain ⟨was, rest, hw, -, rfl⟩ := exists_split hdr.headerLen6 (newIn.length - hdr.headerLen6)
        (show newIn.length = hdr.headerLen6 + (newIn.length - hdr.headerLen6) by omega)
      rw [quote4to6_eq e _ _ hb hn hdr hw] at h
      obtain rfl := Option.some.inj h
      exact ⟨by simp [hw], rfl⟩
  · rw [quote4to6, if_neg hlen] at h
    obtain rfl := Option.some.inj h
    exact ⟨rfl, rfl⟩

theorem head4to6_keeps {e : ByteOrder} {srcPrefix dstPrefix : UInt32} {type : UInt8}
    {new old : List UInt8} {p : Progress}
    (h : head4to6 e srcPrefix dstPrefix type new old = some p) : p.Keeps new old := by
  unfold head4to6 at h
  split at h
  · obtain ⟨n, hn, hp⟩ := Option.bind_eq_some_iff.mp h
    obtain rfl := Option.some.inj hp
    exact ⟨poke?_length hn, rfl⟩
  split at h
  · obtain ⟨n, hn, hp⟩ := Option.bind_eq_some_iff.mp h
    obtain rfl := Option.some.inj hp
    exact ⟨poke?_length hn, rfl⟩
  split at h
  · obtain ⟨⟨n, o⟩, hu, hp⟩ := Option.bind_eq_some_iff.mp h
    obtain ⟨hn, ho⟩ := unreach4to6_keeps hu
    exact (quote4to6_keeps hp).trans hn ho
  split at h
  · obtain ⟨n, hn, hp⟩ := Option.bind_eq_some_iff.mp h
    exact (quote4to6_keeps hp).trans (poke?_length hn) rfl
  · obtain rfl := Option.some.inj h
    exact ⟨rfl, rfl⟩

theorem inner4to6_keeps
    {icmp : List UInt8 → List UInt8 → List UInt8 → List UInt8 →
      Option (Bool × List UInt8 × List UInt8)}
    (hicmp : ∀ new old src dst r, icmp new old src dst = some r →
      r.2.1.length = new.length ∧ r.2.2.length = old.length)
    {p q : Progress} (h : inner4to6 icmp p = some q) : q.Keeps p.new p.old := by
  unfold inner4to6 at h
  split at h
  · simp only [Option.bind_eq_bind, Option.bind_eq_some_iff] at h
    obtain ⟨src, -, dst, -, h⟩ := h
    exact Progress.icmp_keeps (fun new old r hr => hicmp new old src dst r hr) h
  split at h
  · simp only [Option.bind_eq_bind, Option.bind_eq_some_iff] at h
    obtain ⟨src, -, dst, -, h⟩ := h
    exact Progress.transport_keeps (fun new old r hr => transportTrans_length hr) h
  split at h
  · simp only [Option.bind_eq_bind, Option.bind_eq_some_iff] at h
    obtain ⟨src, -, dst, -, h⟩ := h
    exact Progress.transport_keeps (fun new old r hr => transportTrans_length hr) h
  · obtain rfl := Option.some.inj h
    exact ⟨rfl, rfl⟩

/-- `icmp4to6_trans` returns 0 for a packet with a header, and there must be
room for the new header. -/
theorem icmp4to6Trans_length {e : ByteOrder} {srcPrefix dstPrefix : UInt32} {depth : Nat}
    {new old src6 dst6 : List UInt8} {r : Bool × List UInt8 × List UInt8}
    (h : icmp4to6Trans e srcPrefix dstPrefix depth new old src6 dst6 = some r) :
    r.1 = decide (8 ≤ old.length) ∧ r.2.1.length = new.length ∧ r.2.2.length = old.length ∧
      (8 ≤ old.length → 8 ≤ new.length) := by
  induction depth generalizing new old src6 dst6 r with
  | zero => cases h
  | succ depth ih =>
      rw [icmp4to6Trans] at h
      by_cases hshort : old.length < ICMP_HEADER_LEN
      · rw [if_pos hshort] at h
        obtain rfl := Option.some.inj h
        rw [ICMP_HEADER_LEN] at hshort
        exact ⟨by simp; omega, rfl, rfl, fun h8 => by omega⟩
      · rw [if_neg hshort] at h
        simp only [Option.bind_eq_bind, Option.bind_eq_some_iff] at h
        obtain ⟨type, -, p, hp, q, hq, q', hq', h⟩ := h
        have hhead := head4to6_keeps hp
        obtain ⟨hfill, h8⟩ := Progress.fill_keeps hq
        have hinner := inner4to6_keeps (fun new old src dst r hr => ⟨(ih hr).2.1, (ih hr).2.2.1⟩) hq'
        obtain ⟨hok, hnew, hold, -⟩ := finish_length h
        rw [ICMP_HEADER_LEN] at hshort
        refine ⟨by simp [hok]; omega, ?_, ?_, fun _ => by rw [← hhead.1]; exact h8⟩
        · rw [hnew, hinner.1, hfill.1, hhead.1]
        · rw [hold, hinner.2, hfill.2, hhead.2]

/-! ## A level -/

/-- A packet shorter than a header is left alone. -/
theorem icmp4to6Trans_short (e : ByteOrder) (srcPrefix dstPrefix : UInt32) (depth : Nat)
    (new src6 dst6 : List UInt8) {old : List UInt8} (h : old.length < 8) :
    icmp4to6Trans e srcPrefix dstPrefix (depth + 1) new old src6 dst6 = some (false, new, old) := by
  rw [icmp4to6Trans]
  exact if_pos h

/-- There is no room for a header. -/
theorem icmp4to6Trans_cramped (e : ByteOrder) (srcPrefix dstPrefix : UInt32) (depth : Nat)
    {new old : List UInt8} (src6 dst6 : List UInt8) (ho : 8 ≤ old.length) (hn : new.length < 8) :
    icmp4to6Trans e srcPrefix dstPrefix depth new old src6 dst6 = none := by
  rw [Option.eq_none_iff_forall_ne_some]
  intro r hr
  have hle := (icmp4to6Trans_length hr).2.2.2 ho
  omega

theorem inner4to6_none
    (icmp : List UInt8 → List UInt8 → List UInt8 → List UInt8 →
      Option (Bool × List UInt8 × List UInt8)) (new old : List UInt8) (ready pass : Nat) :
    inner4to6 icmp ⟨new, old, NO_PROTO, ready, pass⟩ = some ⟨new, old, NO_PROTO, ready, pass⟩ := rfl

/-- What follows a quoted header. -/
def nested4 (e : ByteOrder) (srcPrefix dstPrefix : UInt32) (depth : Nat) (h : Iphdr)
    (new old : List UInt8) : Option (List UInt8 × List UInt8) :=
  let src := (mapped e h.saddr srcPrefix).1
  let dst := (mapped e h.daddr dstPrefix).1
  if nexthdrOf h.protocol = IPPROTO_ICMPV6 then
    (icmp4to6Trans e srcPrefix dstPrefix depth new old src dst).bind fun r =>
      settle (if r.1 then 8 else 0) r.2.1 r.2.2
  else if nexthdrOf h.protocol = IPPROTO_TCP then
    (tcp4to6Trans new old src dst).bind fun r => settle (if r.1 then 20 else 0) r.2 old
  else if nexthdrOf h.protocol = IPPROTO_UDP then
    (udp4to6Trans new old src dst).bind fun r => settle (if r.1 then 8 else 0) r.2 old
  else settle 0 new old

section Level4

variable (e : ByteOrder) (srcPrefix dstPrefix : UInt32) (depth : Nat) (src6 dst6 : List UInt8)
  {b0 b1 n0 n1 : UInt8} {c w m g : List UInt8}

/-- The checksum of a level. -/
abbrev magic6 (src6 dst6 : List UInt8) : Nat → Nat → UInt16 :=
  (csumIpv6Magic src6 dst6 · IPPROTO_ICMPV6 ·)

/-- A packet with a header goes through the steps. -/
theorem icmp4to6Trans_steps (hc : c.length = 2) (hw : w.length = 4) (new x : List UInt8) :
    icmp4to6Trans e srcPrefix dstPrefix (depth + 1) new ([b0] ++ ([b1] ++ (c ++ (w ++ x)))) src6
        dst6 =
      (head4to6 e srcPrefix dstPrefix b0 new ([b0] ++ ([b1] ++ (c ++ (w ++ x))))).bind fun p =>
        p.fill.bind fun p =>
          (inner4to6 (icmp4to6Trans e srcPrefix dstPrefix depth) p).bind
            (finish (magic6 src6 dst6)) := by
  have hlen : ¬([b0] ++ ([b1] ++ (c ++ (w ++ x)))).length < ICMP_HEADER_LEN := by
    simp [ICMP_HEADER_LEN, hc, hw]
    omega
  have hget : ([b0] ++ ([b1] ++ (c ++ (w ++ x))))[0]? = some b0 := by simp
  rw [icmp4to6Trans, if_neg hlen, hget]
  rfl

/-- Without a quote the rest is copied. -/
theorem icmp4to6Trans_copied (hc : c.length = 2) (hw : w.length = 4) (hm : m.length = 2)
    (hg : g.length = 4) {x : List UInt8} (hquote : IsError4 b0 → x.length < 20)
    (hlook : LooksAhead b0 b1 → 8 ≤ x.length) (new : List UInt8) :
    icmp4to6Trans e srcPrefix dstPrefix (depth + 1) ([n0] ++ ([n1] ++ (m ++ (g ++ new))))
        ([b0] ++ ([b1] ++ (c ++ (w ++ x)))) src6 dst6 =
      let (t, code, w') := head4 e b0 b1 w x
      some (true, sealed (magic6 src6 dst6) [t, code] (w' ++ copy new x),
        [b0] ++ ([code] ++ (c ++ (w' ++ x)))) := by
  rw [icmp4to6Trans_steps e srcPrefix dstPrefix depth src6 dst6 hc hw]
  have hw' := head4_length e b0 b1 hw x
  by_cases herr : IsError4 b0
  · rw [head4to6_error e srcPrefix dstPrefix herr hc hw hlook]
    generalize head4 e b0 b1 w x = r at hw' ⊢
    obtain ⟨t, code, w'⟩ := r
    have hshort := @quote4to6_short e srcPrefix dstPrefix ([t] ++ ([n1] ++ (m ++ (g ++ new))))
      ([b0] ++ ([code] ++ (c ++ w'))) x (by simp [hc, hw']) (hquote herr)
    simp only [List.append_assoc] at hshort
    simp only [hshort, Option.bind_some, Progress.fill_eq hm hg hc hw', inner4to6_none,
      finish_copied (magic6 src6 dst6) hm hc hw']
  by_cases hecho : b0 = ICMP_ECHOREPLY ∨ b0 = ICMP_ECHO
  · obtain ⟨hhead, hkeep⟩ := @head4to6_echo e srcPrefix dstPrefix b0 b1 n0 w x
      ([n1] ++ (m ++ (g ++ new))) ([b0] ++ ([b1] ++ (c ++ (w ++ x)))) hecho
    generalize head4 e b0 b1 w x = r at hw' hhead hkeep ⊢
    obtain ⟨t, code, w'⟩ := r
    obtain ⟨rfl, rfl⟩ := Prod.mk.inj hkeep
    simp only [hhead, Option.bind_some, Progress.fill_eq hm hg hc hw', inner4to6_none,
      finish_copied (magic6 src6 dst6) hm hc hw']
  · obtain ⟨hhead, hkeep⟩ := @head4to6_other e srcPrefix dstPrefix b0 b1 w x
      ([n0] ++ ([n1] ++ (m ++ (g ++ new)))) ([b0] ++ ([b1] ++ (c ++ (w ++ x)))) hecho herr
    simp only [hhead, hkeep, Option.bind_some, Progress.fill_eq hm hg hc hw, inner4to6_none,
      finish_whole (magic6 src6 dst6) hm hc]

/-- The quoted header is looked at and not there. -/
theorem icmp4to6Trans_blind (hc : c.length = 2) (hw : w.length = 4) {x : List UInt8}
    (hlook : LooksAhead b0 b1) (hx : x.length < 8) (new : List UInt8) :
    icmp4to6Trans e srcPrefix dstPrefix (depth + 1) new ([b0] ++ ([b1] ++ (c ++ (w ++ x)))) src6
      dst6 = none := by
  rw [icmp4to6Trans_steps e srcPrefix dstPrefix depth src6 dst6 hc hw,
    head4to6_none e srcPrefix dstPrefix hlook hc hw hx]
  rfl

/-- There is no room for the header of the quote. -/
theorem icmp4to6Trans_narrow (hc : c.length = 2) (hw : w.length = 4) (hm : m.length = 2)
    (hg : g.length = 4) (herr : IsError4 b0) (h : Iphdr) (x : List UInt8) {new : List UInt8}
    (hn : new.length < h.headerLen6) :
    icmp4to6Trans e srcPrefix dstPrefix (depth + 1) ([n0] ++ ([n1] ++ (m ++ (g ++ new))))
      ([b0] ++ ([b1] ++ (c ++ (w ++ (h.bytes ++ x))))) src6 dst6 = none := by
  rw [icmp4to6Trans_steps e srcPrefix dstPrefix depth src6 dst6 hc hw,
    head4to6_error e srcPrefix dstPrefix herr hc hw (fun _ => by simp; omega)]
  have hw' := head4_length e b0 b1 hw (h.bytes ++ x)
  generalize head4 e b0 b1 w (h.bytes ++ x) = r at hw' ⊢
  obtain ⟨t, code, w'⟩ := r
  have hnone := @quote4to6_none e srcPrefix dstPrefix ([b0] ++ ([code] ++ (c ++ w')))
    ([t] ++ ([n1] ++ (m ++ g))) new (by simp [hc, hw']) (by simp [hm, hg]) h hn x
  simp only [List.append_assoc] at hnone
  simp only [hnone, Option.bind_none]

/-- The addresses of the quote are those of its new header. -/
theorem peek_header6 (h : Iphdr) (supplement : Int) (was new : List UInt8) :
    peek? (h.header6 e srcPrefix dstPrefix supplement was ++ new) 8 16 =
        some (mapped e h.saddr srcPrefix).1 ∧
      peek? (h.header6 e srcPrefix dstPrefix supplement was ++ new) 24 16 =
        some (mapped e h.daddr dstPrefix).1 := by
  unfold Iphdr.header6
  split
  · rw [List.append_assoc]
    exact ⟨Ip6hdr.peek_saddr _ _, Ip6hdr.peek_daddr _ _⟩
  · exact ⟨Ip6hdr.peek_saddr _ _, Ip6hdr.peek_daddr _ _⟩

/-- An error with a quote: the new header, the header of the quote, and what
becomes of the rest. -/
theorem icmp4to6Trans_quoted (hc : c.length = 2) (hw : w.length = 4) (hm : m.length = 2)
    (hg : g.length = 4) (herr : IsError4 b0) (h : Iphdr) (x : List UInt8) {was : List UInt8}
    (hwas : was.length = h.headerLen6) (new : List UInt8) :
    icmp4to6Trans e srcPrefix dstPrefix (depth + 1) ([n0] ++ ([n1] ++ (m ++ (g ++ (was ++ new)))))
        ([b0] ++ ([b1] ++ (c ++ (w ++ (h.bytes ++ x))))) src6 dst6 =
      let (t, code, w') := head4 e b0 b1 w (h.bytes ++ x)
      let quote := h.header6 e srcPrefix dstPrefix (h.headerLen6 - IPV6_HEADER_LEN) was
      (nested4 e srcPrefix dstPrefix depth h new x).map fun r =>
        (true, sealed (magic6 src6 dst6) [t, code] (w' ++ (quote ++ r.1)),
          [b0] ++ ([code] ++ (c ++ (w' ++ (h.bytes ++ r.2))))) := by
  rw [icmp4to6Trans_steps e srcPrefix dstPrefix depth src6 dst6 hc hw,
    head4to6_error e srcPrefix dstPrefix herr hc hw (fun _ => by simp; omega)]
  have hw' := head4_length e b0 b1 hw (h.bytes ++ x)
  generalize head4 e b0 b1 w (h.bytes ++ x) = r at hw' ⊢
  obtain ⟨t, code, w'⟩ := r
  have hquote := @quote4to6_eq e srcPrefix dstPrefix ([b0] ++ ([code] ++ (c ++ w')))
    ([t] ++ ([n1] ++ (m ++ g))) was (by simp [hc, hw']) (by simp [hm, hg]) h hwas x new
  simp only [List.append_assoc] at hquote
  simp only [hquote, Option.bind_some, Progress.fill_eq hm hg hc hw']
  -- the quoted packet
  obtain ⟨hsrc, hdst⟩ := peek_header6 e srcPrefix dstPrefix h (h.headerLen6 - IPV6_HEADER_LEN) was new
  have hquoteLen : 8 + h.headerLen6 =
      8 + (h.header6 e srcPrefix dstPrefix (h.headerLen6 - IPV6_HEADER_LEN) was).length := by simp
  generalize h.header6 e srcPrefix dstPrefix (h.headerLen6 - IPV6_HEADER_LEN) was = quote
    at hsrc hdst hquoteLen ⊢
  have hsrc' : peek? ([t] ++ ([code] ++ (m ++ (w' ++ (quote ++ new))))) 16 16 =
      some (mapped e h.saddr srcPrefix).1 := by
    simpa only [peek?_skip, List.length_cons, List.length_nil, Nat.zero_add, Nat.reduceLeDiff,
      Nat.reduceSub, hm, hw'] using hsrc
  have hdst' : peek? ([t] ++ ([code] ++ (m ++ (w' ++ (quote ++ new))))) 32 16 =
      some (mapped e h.daddr dstPrefix).1 := by
    simpa only [peek?_skip, List.length_cons, List.length_nil, Nat.zero_add, Nat.reduceLeDiff,
      Nat.reduceSub, hm, hw'] using hdst
  have hold (y : List UInt8) : [b0] ++ ([code] ++ (c ++ (w' ++ (h.bytes ++ y)))) =
      ([b0] ++ ([code] ++ (c ++ (w' ++ h.bytes)))) ++ y := by simp
  have hpass : IP_ICMP_LEN = ([b0] ++ ([code] ++ (c ++ (w' ++ h.bytes)))).length := by
    simp [IP_ICMP_LEN, hc, hw']
  simp only [hold, nested4]
  rw [hpass]
  generalize [b0] ++ ([code] ++ (c ++ (w' ++ h.bytes))) = passed
  by_cases hicmp : nexthdrOf h.protocol = IPPROTO_ICMPV6
  · simp only [inner4to6, hicmp, if_true, Option.bind_eq_bind, hsrc', hdst', Option.bind_some]
    exact icmp_finish (magic6 src6 dst6) hm hw' hquoteLen fun new old r hr =>
      ⟨(icmp4to6Trans_length hr).2.2.1, (icmp4to6Trans_length hr).1⟩
  by_cases htcp : nexthdrOf h.protocol = IPPROTO_TCP
  · simp only [inner4to6, htcp, if_true, Option.bind_eq_bind, hsrc', hdst', Option.bind_some]
    exact transport_finish (magic6 src6 dst6) hm hw' hquoteLen fun new old new' hr =>
      le_of_transportTrans hr
  by_cases hudp : nexthdrOf h.protocol = IPPROTO_UDP
  · simp only [inner4to6, hudp, if_true, Option.bind_eq_bind, hsrc', hdst', Option.bind_some]
    exact transport_finish (magic6 src6 dst6) hm hw' hquoteLen fun new old new' hr =>
      le_of_transportTrans hr
  · simp only [inner4to6, hicmp, htcp, hudp, if_false, Option.bind_some]
    exact finish_settle (magic6 src6 dst6) hm hw' hquoteLen rfl (Nat.zero_le _)

end Level4

end UbntSdk.Ivi
