/-
UbntSdk.Arpnat.BootpTheorems — for which DHCP frames the rewriting of the two
hooks gives a valid packet.

`IsDhcp` are the frames that the hooks are meant to rewrite, `Rewritten` is
the outcome: the BOOTP field is set, both checksums are right, and every
access was inside the frame. `fieldsEnd` is how far the BOOTP fields reach
and `TailFits` what the checksum function, which gets the length of the
buffer and not that of the datagram, asks of the bytes behind the datagram.
-/
import UbntSdk.Arpnat.Bootp

namespace UbntSdk.Arpnat

open UbntSdk.Lib

/-! ## Checksums -/

/-- The two half words of a word. -/
def halves (x : UInt32) : Nat := x.toNat / 2 ^ 16 + x.toNat % 2 ^ 16

/-- The kernel's functions compute the Internet checksum. -/
structure Checksums (env : Env) : Prop where
  ip : ∀ (skb : Skb) (off n : Nat),
    env.ipFastCsum skb.mem off n = checksum (sum16 (skb.bytes off (n * 4)))
  udp : ∀ (skb : Skb) (off : Nat) (size saddr daddr : UInt32) (len : UInt16) (proto : UInt8),
    env.csumTcpudpMagic saddr daddr len proto (env.csumPartial skb.mem off size) =
      checksum (halves saddr + halves daddr + len.toNat + proto.toNat +
        sum16 (skb.bytes off size.toNat))

/-- The UDP header behind the IP header at `iph`. -/
def udphdr (skb : Skb) (iph : Nat) : Nat := iph + ihl skb iph

/-- The length field of the UDP header. -/
def udpLen (skb : Skb) (iph : Nat) : Nat := (skb.u16 (udphdr skb iph + 4)).toNat

/-- The IP header checksum is right. -/
def IpVerifies (skb : Skb) (iph : Nat) : Prop := sum16 (skb.bytes iph (ihl skb iph)) % 65535 = 0

/-- The UDP header has a checksum, and it is right for the datagram that the
length field announces and the addresses of the IP header. -/
def UdpVerifies (skb : Skb) (iph : Nat) : Prop :=
  skb.u16 (udphdr skb iph + 6) ≠ 0 ∧
  (halves (skb.u32 (iph + 12)) + halves (skb.u32 (iph + 16)) + (skb.mem (iph + 9)).toNat +
    udpLen skb iph + sum16 (skb.bytes (udphdr skb iph) (udpLen skb iph))) % 65535 = 0

instance (skb : Skb) (iph : Nat) : Decidable (IpVerifies skb iph) := inferInstanceAs (Decidable (_ = _))

/-! ## Frames and their outcome -/

/-- The way of a frame: through `do_in` or through `do_out`. -/
inductive Way where
  | inward
  | outward

/-- From port 67 on the way in; on the way out to port 67, and not from the
bridge itself. -/
def Served (way : Way) (env : Env) (skb : Skb) (iph : Nat) : Prop :=
  match way with
  | .inward => skb.u16 (udphdr skb iph) = 67
  | .outward => skb.u16 (udphdr skb iph + 2) = 67 ∧ env.brAddr ≠ skb.mac 6

/-- An IPv4/UDP frame, no later fragment, whose datagram lies in it, from
port 67 on its way in or from a bridged host to port 67 on its way out. -/
structure IsDhcp (way : Way) (env : Env) (vlan : Nat) (skb : Skb) : Prop where
  enabled : env.bootpnat ≠ 0
  ip : IsIp vlan skb
  udp : skb.mem (NETWORK_HEADER + vlan + 9) = IPPROTO_UDP
  whole : isFragment skb (NETWORK_HEADER + vlan) = false
  header : 20 ≤ ihl skb (NETWORK_HEADER + vlan)
  datagram : 8 ≤ udpLen skb (NETWORK_HEADER + vlan)
  inside : udphdr skb (NETWORK_HEADER + vlan) + udpLen skb (NETWORK_HEADER + vlan) ≤
    NETWORK_HEADER + skb.len
  word : skb.len < 2 ^ 32
  served : Served way env skb (NETWORK_HEADER + vlan)

/-- The BOOTP field that is set, and to what: `giaddr` to 0 on the way in,
`giaddr` to an address of the bridge or the broadcast flag on the way out. -/
def bootpField (way : Way) (env : Env) (skb : Skb) (iph : Nat) : Nat × List UInt8 :=
  let bootp := udphdr skb iph + 8
  match way with
  | .inward => (bootp + GIADDR_OFFSET, [0, 0, 0, 0])
  | .outward =>
      if env.bootpnat = BOOTP_RELAY then
        (bootp + GIADDR_OFFSET, be32 (env.selectAddr (skb.u32 (iph + 16))))
      else (bootp + FLAGS_OFFSET, [skb.mem (bootp + FLAGS_OFFSET) ||| 0x80])

/-- The last BOOTP field that is used ends here: on the way in it is the
client's hardware address, which stands behind `giaddr`. -/
def fieldsEnd (way : Way) (env : Env) (skb : Skb) (iph : Nat) : Nat :=
  let bootp := udphdr skb iph + 8
  match way with
  | .inward => bootp + GIADDR_OFFSET + 4 + 6
  | .outward => if env.bootpnat = BOOTP_RELAY then bootp + GIADDR_OFFSET + 4 else bootp + FLAGS_OFFSET + 1

/-- The number of bytes from the UDP header to the end of the frame, and what
is behind the datagram, with the BOOTP field if it is there, add as much as
the length of the datagram. Where nothing is behind it, they do. -/
def TailFits (way : Way) (env : Env) (vlan : Nat) (skb : Skb) : Prop :=
  let iph := NETWORK_HEADER + vlan
  let size := skb.len - ihl skb iph - vlan
  let field := bootpField way env skb iph
  (size % 65536 + sumBehind (udpLen skb iph) ((skb.put field.1 field.2).bytes
    (udphdr skb iph + udpLen skb iph) (size - udpLen skb iph))) % 65535 = udpLen skb iph % 65535

/-- The accesses of the rewriting. -/
def rewriting (way : Way) (e : ByteOrder) (env : Env) (vlan : Nat) (skb : Skb) : Traced :=
  match way with
  | .inward => tracedBootpIn e env vlan skb
  | .outward => tracedBootpOut e env vlan skb

/-- The frame that the hook leaves. -/
def rewritten (way : Way) (e : ByteOrder) (env : Env) (jiffies vlan : Nat) (h : Hook) : Skb :=
  match way with
  | .inward => (doInIp e env jiffies vlan h).skb
  | .outward => (doOutIp e env jiffies vlan h).skb

/-- On the way in the packet goes to everybody's port 68, and the frame to the
hardware address behind `giaddr`, which is the client's. -/
def Readdressed (way : Way) (skb skb' : Skb) (iph : Nat) : Prop :=
  match way with
  | .inward =>
      skb'.u32 (iph + 16) = 0xffffffff ∧ skb'.u16 (udphdr skb iph + 2) = 68 ∧
      skb'.mac 0 = skb.mac (udphdr skb iph + 8 + GIADDR_OFFSET + 4)
  | .outward => True

/-- The frame `skb` has become the valid packet `skb'`, by these accesses. -/
structure Rewritten (way : Way) (env : Env) (vlan : Nat) (skb skb' : Skb) (t : Traced) : Prop where
  field : let field := bootpField way env skb (NETWORK_HEADER + vlan)
    (field.1, field.2.length) ∈ t.writes ∧ skb'.bytes field.1 field.2.length = field.2
  address : Readdressed way skb skb' (NETWORK_HEADER + vlan)
  ip : IpVerifies skb' (NETWORK_HEADER + vlan)
  udp : UdpVerifies skb' (NETWORK_HEADER + vlan)
  inside : Inside skb' (t.reads ++ t.writes)

/-! ## The checksums that are stored -/

section

variable {env : Env} {skb : Skb} {iph vlan : Nat}

/-- The arithmetic of `size` does not wrap. -/
theorem size_toNat (hword : skb.len < 2 ^ 32) (hfits : ihl skb iph + vlan ≤ skb.len) :
    (skb.len.toUInt32 - (ihl skb iph).toUInt32 - vlan.toUInt32).toNat =
      skb.len - ihl skb iph - vlan := by
  have hlen : skb.len.toUInt32.toNat = skb.len := Nat.mod_eq_of_lt hword
  have hihl : (ihl skb iph).toUInt32.toNat = ihl skb iph := Nat.mod_eq_of_lt (by omega)
  have hvlan : vlan.toUInt32.toNat = vlan := Nat.mod_eq_of_lt (by omega)
  have hone : (skb.len.toUInt32 - (ihl skb iph).toUInt32).toNat = skb.len - ihl skb iph := by
    rw [UInt32.toNat_sub_of_le, hlen, hihl]
    rw [UInt32.le_iff_toNat_le, hlen, hihl]
    omega
  rw [UInt32.toNat_sub_of_le, hone, hvlan]
  rw [UInt32.le_iff_toNat_le, hone, hvlan]
  omega

/-- The checksum over the rest of the buffer makes it add up to 0, and is
never 0 itself. -/
theorem udpCheck_spec (hsums : Checksums env) (hword : skb.len < 2 ^ 32)
    (hfits : ihl skb iph + vlan ≤ skb.len) :
    udpCheck env skb iph vlan ≠ 0 ∧
    (halves (skb.u32 (iph + 12)) + halves (skb.u32 (iph + 16)) +
      (skb.len - ihl skb iph - vlan) % 65536 + (skb.mem (iph + 9)).toNat +
      sum16 (skb.bytes (udphdr skb iph) (skb.len - ihl skb iph - vlan)) +
      (udpCheck env skb iph vlan).toNat) % 65535 = 0 := by
  have hsize := size_toNat hword hfits
  have hshort : (skb.len.toUInt32 - (ihl skb iph).toUInt32 - vlan.toUInt32).toUInt16.toNat =
      (skb.len - ihl skb iph - vlan) % 65536 := by
    rw [UInt32.toNat_toUInt16, hsize]
  have hadd := add_checksum (halves (skb.u32 (iph + 12)) + halves (skb.u32 (iph + 16)) +
    (skb.len - ihl skb iph - vlan) % 65536 + (skb.mem (iph + 9)).toNat +
    sum16 (skb.bytes (udphdr skb iph) (skb.len - ihl skb iph - vlan)))
  simp only [udpCheck, hsums.udp, hsize, hshort]
  rw [← udphdr]
  split
  · rename_i hzero
    rw [hzero] at hadd
    refine ⟨by decide, ?_⟩
    rw [UInt16.toNat_zero] at hadd
    have hffff : (0xFFFF : UInt16).toNat = 65535 := rfl
    omega
  · rename_i hne
    exact ⟨hne, hadd⟩

/-- With the checksum that the code stores, the datagram verifies iff what is
behind it makes up for the length. -/
theorem udpVerifies_iff (hsums : Checksums env) (hword : skb.len < 2 ^ 32)
    (hheader : 20 ≤ ihl skb iph) (hdatagram : 8 ≤ udpLen skb iph)
    (hinside : ihl skb iph + vlan + udpLen skb iph ≤ skb.len)
    (hzero : skb.u16 (udphdr skb iph + 6) = 0) :
    UdpVerifies (skb.put16 (udphdr skb iph + 6) (udpCheck env skb iph vlan)) iph ↔
      ((skb.len - ihl skb iph - vlan) % 65536 + sumBehind (udpLen skb iph)
        (skb.bytes (udphdr skb iph + udpLen skb iph)
          (skb.len - ihl skb iph - vlan - udpLen skb iph))) % 65535 = udpLen skb iph % 65535 := by
  obtain ⟨hcheck, hsum⟩ := @udpCheck_spec env skb iph vlan hsums hword (by omega)
  generalize udpCheck env skb iph vlan = check at hcheck hsum ⊢
  have huh : iph + 20 ≤ udphdr skb iph := by
    unfold udphdr
    omega
  have hmem : ∀ i, i < udphdr skb iph + 6 ∨ udphdr skb iph + 8 ≤ i →
      (skb.put16 (udphdr skb iph + 6) check).mem i = skb.mem i := by
    intro i hi
    rw [Skb.put16_eq, Skb.put_outside _ _ (by rw [word16_length]; omega)]
  have hsame : udphdr (skb.put16 (udphdr skb iph + 6) check) iph = udphdr skb iph := by
    rw [udphdr, ihl, hmem _ (by omega)]
    rfl
  have hlen : udpLen (skb.put16 (udphdr skb iph + 6) check) iph = udpLen skb iph := by
    rw [udpLen, hsame, Skb.u16_congr (fun i _ _ => hmem i (by omega))]
    rfl
  have hfield : (skb.put16 (udphdr skb iph + 6) check).u16 (udphdr skb iph + 6) = check := by
    rw [Skb.put16_eq, Skb.u16_eq_iff]
    exact Skb.bytes_put _ _ _
  have hstored := @Skb.sum16_put16 skb (udphdr skb iph) 6 (skb.len - ihl skb iph - vlan) check
    (by decide) (by omega)
  have hsplit := sum16_append_behind
    ((skb.put16 (udphdr skb iph + 6) check).bytes (udphdr skb iph) (udpLen skb iph))
    ((skb.put16 (udphdr skb iph + 6) check).bytes (udphdr skb iph + udpLen skb iph)
      (skb.len - ihl skb iph - vlan - udpLen skb iph))
  rw [← Skb.bytes_add, Skb.bytes_length, show udpLen skb iph +
    (skb.len - ihl skb iph - vlan - udpLen skb iph) = skb.len - ihl skb iph - vlan by omega] at hsplit
  have htail : (skb.put16 (udphdr skb iph + 6) check).bytes (udphdr skb iph + udpLen skb iph)
      (skb.len - ihl skb iph - vlan - udpLen skb iph) =
      skb.bytes (udphdr skb iph + udpLen skb iph)
        (skb.len - ihl skb iph - vlan - udpLen skb iph) :=
    Skb.bytes_congr fun i _ _ => hmem i (by omega)
  rw [htail] at hsplit
  rw [hzero, UInt16.toNat_zero] at hstored
  rw [UdpVerifies, hsame, hlen, hfield, Skb.u32_congr (fun i _ _ => hmem i (by omega)),
    Skb.u32_congr (fun i _ _ => hmem i (by omega)), hmem _ (by omega)]
  simp only [hcheck, ne_eq, not_false_eq_true, true_and]
  omega

/-- The header checksum makes the IP header add up to 0. -/
theorem ipVerifies_put16 (hsums : Checksums env) (hheader : 20 ≤ ihl skb iph)
    (hzero : skb.u16 (iph + 10) = 0) :
    IpVerifies (skb.put16 (iph + 10) (env.ipFastCsum skb.mem iph (skb.mem iph &&& 0x0f).toNat)) iph := by
  have hadd := add_checksum (sum16 (skb.bytes iph (ihl skb iph)))
  have hsum : env.ipFastCsum skb.mem iph (skb.mem iph &&& 0x0f).toNat =
      checksum (sum16 (skb.bytes iph (ihl skb iph))) := hsums.ip skb iph _
  rw [hsum]
  generalize checksum (sum16 (skb.bytes iph (ihl skb iph))) = check at hadd ⊢
  have hstored := @Skb.sum16_put16 skb iph 10 (ihl skb iph) check (by decide) (by omega)
  have hsame : ihl (skb.put16 (iph + 10) check) iph = ihl skb iph := by
    rw [ihl, Skb.put16_eq, Skb.put_outside _ _ (by omega)]
    rfl
  rw [hzero, UInt16.toNat_zero] at hstored
  rw [IpVerifies, hsame]
  omega

end

/-! ## The frame before its UDP checksum -/

/-- The frame before the UDP checksum is stored. -/
structure Prepared (way : Way) (env : Env) (iph : Nat) (skb g : Skb) : Prop where
  len : g.len = skb.len
  kept : ∀ i, i = iph ∨ i = iph + 9 ∨ i = udphdr skb iph + 4 ∨ i = udphdr skb iph + 5 →
    g.mem i = skb.mem i
  unchecked : g.u16 (udphdr skb iph + 6) = 0
  behind : ∀ i, udphdr skb iph + 8 ≤ i →
    g.mem i = (skb.put (bootpField way env skb iph).1 (bootpField way env skb iph).2).mem i
  ip : IpVerifies g iph ↔ (way = .outward → IpVerifies skb iph)

/-- The way in up to the checksums, which are cleared. -/
def clearedIn (skb : Skb) (iph : Nat) : Skb :=
  let uh := udphdr skb iph
  let giaddrp := uh + 8 + GIADDR_OFFSET
  let skb := skb.put32 (iph + 16) 0xffffffff
  let skb := skb.putMac 0 (skb.mac (giaddrp + 4))
  let skb := skb.put32 giaddrp 0
  let skb := skb.put16 (uh + 2) 68
  let skb := skb.put16 (iph + 10) 0
  skb.put16 (uh + 6) 0

/-- On the way in. -/
def preparedIn (env : Env) (skb : Skb) (iph : Nat) : Skb :=
  let skb := clearedIn skb iph
  skb.put16 (iph + 10) (env.ipFastCsum skb.mem iph (skb.mem iph &&& 0x0f).toNat)

/-- On the way out. -/
def preparedOut (env : Env) (skb : Skb) (iph : Nat) : Skb :=
  let field := bootpField .outward env skb iph
  (skb.put field.1 field.2).put16 (udphdr skb iph + 6) 0

section

variable {env : Env} {skb : Skb} {iph vlan : Nat}

theorem bootpField_behind (way : Way) :
    udphdr skb iph + 8 ≤ (bootpField way env skb iph).1 := by
  cases way with
  | inward => exact Nat.le_add_right _ _
  | outward =>
      unfold bootpField
      dsimp only
      split <;> exact Nat.le_add_right _ _

/-- Where the header is left alone, its checksum is as right as it was. -/
theorem ipVerifies_congr {skb' : Skb} (hheader : 20 ≤ ihl skb iph)
    (h : ∀ i, iph ≤ i → i < udphdr skb iph → skb'.mem i = skb.mem i) :
    IpVerifies skb' iph ↔ IpVerifies skb iph := by
  have huh : udphdr skb iph = iph + ihl skb iph := rfl
  have hihl : ihl skb' iph = ihl skb iph := by
    rw [ihl, h iph (Nat.le_refl _) (by omega)]
    rfl
  rw [IpVerifies, IpVerifies, hihl, Skb.bytes_congr fun i hlo hhi => h i hlo (by omega)]

theorem prepared_out (hheader : 20 ≤ ihl skb iph) :
    Prepared .outward env iph skb (preparedOut env skb iph) := by
  have hfield := @bootpField_behind env skb iph .outward
  have huh : udphdr skb iph = iph + ihl skb iph := rfl
  have hmem : ∀ i, i < udphdr skb iph + 6 → (preparedOut env skb iph).mem i = skb.mem i := by
    intro i hi
    rw [preparedOut, Skb.put16_eq, Skb.put_outside _ _ (Or.inl hi),
      Skb.put_outside _ _ (Or.inl (by omega))]
  refine ⟨rfl, fun i hi => hmem i (by omega), ?_, fun i hi => ?_, ?_⟩
  · rw [preparedOut, Skb.put16_eq, Skb.u16_eq_iff]
    exact Skb.bytes_put _ _ _
  · rw [preparedOut, Skb.put16_eq, Skb.put_outside _ _ (Or.inr (by rw [word16_length]; omega))]
  · rw [ipVerifies_congr hheader fun i _ hi => hmem i (by omega)]
    simp

theorem clearedIn_eq :
    clearedIn skb iph =
      ((((((skb.put (iph + 16) (be32 0xffffffff)).put 0
        (List.ofFn (skb.mac (udphdr skb iph + 8 + GIADDR_OFFSET + 4)))).put
          (udphdr skb iph + 8 + GIADDR_OFFSET) [0, 0, 0, 0]).put
            (udphdr skb iph + 2) (word16 .big 68)).put (iph + 10) (word16 .big 0)).put
              (udphdr skb iph + 6) (word16 .big 0)) := by
  have huh : udphdr skb iph = iph + ihl skb iph := rfl
  have hoffset : GIADDR_OFFSET = 24 := rfl
  have hmac : (skb.put (iph + 16) (be32 0xffffffff)).mac (udphdr skb iph + 8 + GIADDR_OFFSET + 4) =
      skb.mac (udphdr skb iph + 8 + GIADDR_OFFSET + 4) := by
    funext k
    exact Skb.put_outside _ _ (Or.inr (by rw [be32_length]; omega))
  have hzero : be32 0 = [0, 0, 0, 0] := rfl
  simp only [clearedIn, Skb.put32_eq, Skb.put16_eq, Skb.putMac, hmac, hzero]

theorem clearedIn_mem (hiph : 14 ≤ iph) {i : Nat} (hlo : iph ≤ i)
    (hcheck : i < iph + 10 ∨ iph + 12 ≤ i) (hdaddr : i < iph + 16 ∨ iph + 20 ≤ i)
    (hport : i < udphdr skb iph + 2 ∨ udphdr skb iph + 4 ≤ i)
    (hucheck : i < udphdr skb iph + 6 ∨ udphdr skb iph + 8 ≤ i) :
    (clearedIn skb iph).mem i =
      (skb.put (udphdr skb iph + 8 + GIADDR_OFFSET) [0, 0, 0, 0]).mem i := by
  have huh : udphdr skb iph = iph + ihl skb iph := rfl
  have hmac : ∀ m : Mac, (List.ofFn m).length = 6 := fun m => List.length_ofFn
  rw [clearedIn_eq, Skb.put_outside _ _ (by rw [word16_length]; omega),
    Skb.put_outside _ _ (by rw [word16_length]; omega),
    Skb.put_outside _ _ (by rw [word16_length]; omega)]
  refine Skb.put_mem_congr ?_ _ _
  rw [Skb.put_outside _ _ (by rw [hmac]; omega), Skb.put_outside _ _ (by rw [be32_length]; omega)]

theorem clearedIn_kept (hiph : 14 ≤ iph) (hheader : 20 ≤ ihl skb iph) {i : Nat}
    (hi : i = iph ∨ i = iph + 9 ∨ i = udphdr skb iph + 4 ∨ i = udphdr skb iph + 5) :
    (clearedIn skb iph).mem i = skb.mem i := by
  have huh : udphdr skb iph = iph + ihl skb iph := rfl
  rw [clearedIn_mem hiph (by omega) (by omega) (by omega) (by omega) (by omega),
    Skb.put_outside _ _ (Or.inl (by omega))]

theorem ihl_clearedIn (hiph : 14 ≤ iph) (hheader : 20 ≤ ihl skb iph) :
    ihl (clearedIn skb iph) iph = ihl skb iph := by
  rw [ihl, clearedIn_kept hiph hheader (Or.inl rfl)]
  rfl

/-- On the way in everything but the UDP checksum is as it should be. -/
theorem prepared_in (hsums : Checksums env) (hiph : 14 ≤ iph) (hheader : 20 ≤ ihl skb iph) :
    Prepared .inward env iph skb (preparedIn env skb iph) := by
  have huh : udphdr skb iph = iph + ihl skb iph := rfl
  have hihl := ihl_clearedIn hiph hheader
  have hzero : (clearedIn skb iph).u16 (iph + 10) = 0 := by
    rw [clearedIn_eq, Skb.u16_put_outside _ _ (Or.inl (by omega)), Skb.u16_eq_iff]
    exact Skb.bytes_put _ _ _
  have hstored : ∀ {i : Nat}, i < iph + 10 ∨ iph + 12 ≤ i →
      (preparedIn env skb iph).mem i = (clearedIn skb iph).mem i := by
    intro i hi
    rw [preparedIn, Skb.put16_eq, Skb.put_outside _ _ (by rw [word16_length]; omega)]
  refine ⟨rfl, fun i hi => ?_, ?_, fun i hi => ?_, ?_⟩
  · rw [hstored (by omega), clearedIn_kept hiph hheader hi]
  · rw [Skb.u16_congr fun i _ _ => hstored (by omega), clearedIn_eq, Skb.u16_eq_iff]
    exact Skb.bytes_put _ _ _
  · rw [hstored (by omega)]
    exact clearedIn_mem hiph (by omega) (by omega) (by omega) (by omega) (by omega)
  · have hok := @ipVerifies_put16 env (clearedIn skb iph) iph hsums (by omega) hzero
    exact ⟨fun _ hway => (by cases hway), fun _ => hok⟩

theorem preparedIn_destination (hiph : 14 ≤ iph) (hheader : 20 ≤ ihl skb iph) :
    (preparedIn env skb iph).u32 (iph + 16) = 0xffffffff ∧
    (preparedIn env skb iph).u16 (udphdr skb iph + 2) = 68 ∧
    (preparedIn env skb iph).mac 0 = skb.mac (udphdr skb iph + 8 + GIADDR_OFFSET + 4) := by
  have huh : udphdr skb iph = iph + ihl skb iph := rfl
  have hmac : ∀ m : Mac, (List.ofFn m).length = 6 := fun m => List.length_ofFn
  rw [preparedIn, Skb.put16_eq]
  refine ⟨?_, ?_, ?_⟩
  · rw [Skb.u32_eq_iff, clearedIn_eq]
    rw [Skb.bytes_put_outside _ _ (by rw [word16_length]; omega),
      Skb.bytes_put_outside _ _ (by omega),
      Skb.bytes_put_outside _ _ (by rw [word16_length]; omega),
      Skb.bytes_put_outside _ _ (by omega), Skb.bytes_put_outside _ _ (by omega),
      Skb.bytes_put_outside _ _ (by rw [hmac]; omega)]
    exact Skb.bytes_put _ _ _
  · rw [Skb.u16_eq_iff, clearedIn_eq]
    rw [Skb.bytes_put_outside _ _ (by rw [word16_length]; omega),
      Skb.bytes_put_outside _ _ (by omega),
      Skb.bytes_put_outside _ _ (by rw [word16_length]; omega)]
    exact Skb.bytes_put _ _ _
  · funext k
    change Skb.mem _ (0 + k.val) = _
    rw [Skb.put_outside _ _ (Or.inl (by omega)), clearedIn_eq, Skb.put_outside _ _ (Or.inl (by omega)),
      Skb.put_outside _ _ (Or.inl (by omega)), Skb.put_outside _ _ (Or.inl (by omega)),
      Skb.put_outside _ _ (Or.inl (by omega))]
    exact congrFun (Skb.mac_putMac _ 0 _) k

end

/-! ## The outcome -/

section

variable {way : Way} {env : Env} {skb g : Skb} {vlan : Nat}

/-- The headers of the frame that was prepared. -/
theorem Prepared.headers {iph : Nat} (hp : Prepared way env iph skb g) :
    ihl g iph = ihl skb iph ∧ udphdr g iph = udphdr skb iph ∧ udpLen g iph = udpLen skb iph := by
  have hihl : ihl g iph = ihl skb iph := by
    rw [ihl, hp.kept _ (Or.inl rfl)]
    rfl
  have huh : udphdr g iph = udphdr skb iph := by rw [udphdr, hihl, udphdr]
  refine ⟨hihl, huh, ?_⟩
  rw [udpLen, huh, Skb.u16_congr fun i _ _ => hp.kept i (by omega), udpLen]

/-- When the UDP checksum is stored, both checksums are right iff the
conditions on the frame hold. -/
theorem Prepared.verifies_iff (hp : Prepared way env (NETWORK_HEADER + vlan) skb g)
    (hsums : Checksums env) (hdhcp : IsDhcp way env vlan skb) :
    (IpVerifies (g.put16 (udphdr skb (NETWORK_HEADER + vlan) + 6)
        (udpCheck env g (NETWORK_HEADER + vlan) vlan)) (NETWORK_HEADER + vlan) ↔
      (way = .outward → IpVerifies skb (NETWORK_HEADER + vlan))) ∧
    (UdpVerifies (g.put16 (udphdr skb (NETWORK_HEADER + vlan) + 6)
        (udpCheck env g (NETWORK_HEADER + vlan) vlan)) (NETWORK_HEADER + vlan) ↔
      TailFits way env vlan skb) := by
  obtain ⟨hihl, huh, hulen⟩ := hp.headers
  have hheader := hdhcp.header
  have hdatagram := hdhcp.datagram
  have hinside := hdhcp.inside
  have hplace : udphdr skb (NETWORK_HEADER + vlan) =
      NETWORK_HEADER + vlan + ihl skb (NETWORK_HEADER + vlan) := rfl
  constructor
  · rw [← hp.ip]
    refine ipVerifies_congr (by omega) fun i _ hi => ?_
    rw [Skb.put16_eq, Skb.put_outside _ _ (Or.inl (by omega))]
  · have hiff := @udpVerifies_iff env g (NETWORK_HEADER + vlan) vlan hsums
      (by rw [hp.len]; exact hdhcp.word) (by omega) (by omega) (by rw [hp.len]; omega)
      (by rw [huh]; exact hp.unchecked)
    rw [huh, hulen, hihl, hp.len] at hiff
    rw [hiff, TailFits, Skb.bytes_congr fun i _ _ => hp.behind i (by omega)]

/-- The BOOTP field is what it was set to. -/
theorem Prepared.field (hp : Prepared way env (NETWORK_HEADER + vlan) skb g) (check : UInt16) :
    (g.put16 (udphdr skb (NETWORK_HEADER + vlan) + 6) check).bytes
      (bootpField way env skb (NETWORK_HEADER + vlan)).1
      (bootpField way env skb (NETWORK_HEADER + vlan)).2.length =
        (bootpField way env skb (NETWORK_HEADER + vlan)).2 := by
  have hfield := @bootpField_behind env skb (NETWORK_HEADER + vlan) way
  rw [Skb.put16_eq, Skb.bytes_put_outside _ _ (by rw [word16_length]; omega),
    Skb.bytes_congr fun i _ _ => hp.behind i (by omega), Skb.bytes_put]

/-- The checksum function reads to the end of the frame. -/
theorem Prepared.inside_checkReads {skb' : Skb} (hp : Prepared way env (NETWORK_HEADER + vlan) skb g)
    (hdhcp : IsDhcp way env vlan skb) (hlen : skb'.len = skb.len) :
    Inside skb' (checkReads g (NETWORK_HEADER + vlan) vlan) := by
  obtain ⟨hihl, _, _⟩ := hp.headers
  have hheader := hdhcp.header
  have hinside := hdhcp.inside
  have hplace : udphdr skb (NETWORK_HEADER + vlan) =
      NETWORK_HEADER + vlan + ihl skb (NETWORK_HEADER + vlan) := rfl
  have hsize := @size_toNat g (NETWORK_HEADER + vlan) vlan (by rw [hp.len]; exact hdhcp.word)
    (by rw [hp.len]; omega)
  rw [hihl, hp.len] at hsize
  unfold Inside checkReads
  simp only [hsize, hihl, hp.len, hlen, List.mem_cons, List.not_mem_nil, or_false,
    forall_eq_or_imp, forall_eq]
  omega

/-- On a big-endian host the frames are recognised. -/
theorem recognised_in (hdhcp : IsDhcp .inward env vlan skb) :
    fromDhcpServerOn .big env skb (NETWORK_HEADER + vlan) = true := by
  have hport : skb.u16 (NETWORK_HEADER + vlan + ihl skb (NETWORK_HEADER + vlan)) = 67 := hdhcp.served
  rw [fromDhcpServerOn_big, fromDhcpServer]
  simp [hdhcp.enabled, hdhcp.udp, hdhcp.whole, hport]

theorem recognised_out (hdhcp : IsDhcp .outward env vlan skb) :
    toDhcpServerOn .big env skb (NETWORK_HEADER + vlan) = true := by
  have hport : skb.u16 (NETWORK_HEADER + vlan + ihl skb (NETWORK_HEADER + vlan) + 2) = 67 :=
    hdhcp.served.1
  rw [toDhcpServerOn_big, toDhcpServer]
  simp [hdhcp.served.2, hdhcp.udp, hdhcp.whole, hport]

/-- The way in. -/
theorem tracedBootpIn_eq (hlong : ¬ skb.len < 14 + 20 + vlan) (hdhcp : IsDhcp .inward env vlan skb) :
    tracedBootpIn .big env vlan skb =
      let iph := NETWORK_HEADER + vlan
      let uh := udphdr skb iph
      let g := preparedIn env skb iph
      ⟨g.put16 (uh + 6) (udpCheck env g iph vlan),
        testReads skb iph ++ [(uh + 8 + GIADDR_OFFSET + 4, 6)] ++
          [(iph, ihl (clearedIn skb iph) iph)] ++ checkReads g iph vlan,
        [(iph + 16, 4), (0, 6), (uh + 8 + GIADDR_OFFSET, 4), (uh + 2, 2), (iph + 10, 2),
          (uh + 6, 2), (iph + 10, 2), (uh + 6, 2)]⟩ := by
  rw [tracedBootpIn, if_neg hlong, if_pos (recognised_in hdhcp)]
  rfl

/-- The way out. -/
theorem tracedBootpOut_eq (hdhcp : IsDhcp .outward env vlan skb) :
    tracedBootpOut .big env vlan skb =
      let iph := NETWORK_HEADER + vlan
      let uh := udphdr skb iph
      let g := preparedOut env skb iph
      let field := bootpField .outward env skb iph
      ⟨g.put16 (uh + 6) (udpCheck env g iph vlan),
        (6, 6) :: testReads skb iph ++
          [if env.bootpnat = BOOTP_RELAY then (iph + 16, 4) else (field.1, field.2.length)] ++
            checkReads g iph vlan,
        [(field.1, field.2.length), (uh + 6, 2), (uh + 6, 2)]⟩ := by
  rw [tracedBootpOut, if_pos (recognised_out hdhcp)]
  unfold preparedOut bootpField
  by_cases hrelay : env.bootpnat = BOOTP_RELAY
  · simp only [hrelay, if_true, ← Skb.put32_eq]
    rfl
  · simp only [hrelay, if_false]
    rfl

/-- Nothing in front of the IP header has to do with the checksums. -/
theorem verifies_congr {skb' : Skb} {iph : Nat} (h : ∀ i, iph ≤ i → skb'.mem i = skb.mem i) :
    (IpVerifies skb' iph ↔ IpVerifies skb iph) ∧ (UdpVerifies skb' iph ↔ UdpVerifies skb iph) := by
  have hihl : ihl skb' iph = ihl skb iph := by
    rw [ihl, h _ (Nat.le_refl _)]
    rfl
  have huh : udphdr skb' iph = udphdr skb iph := by rw [udphdr, hihl, udphdr]
  have hle : iph ≤ udphdr skb iph := Nat.le_add_right _ _
  have hulen : udpLen skb' iph = udpLen skb iph := by
    rw [udpLen, huh, Skb.u16_congr fun i _ _ => h i (by omega), udpLen]
  constructor
  · rw [IpVerifies, IpVerifies, hihl, Skb.bytes_congr fun i hlo _ => h i hlo]
  · rw [UdpVerifies, UdpVerifies, huh, hulen, Skb.u16_congr fun i _ _ => h i (by omega),
      Skb.u32_congr fun i _ _ => h i (by omega), Skb.u32_congr fun i _ _ => h i (by omega),
      h _ (by omega), Skb.bytes_congr fun i _ _ => h i (by omega)]

/-- A frame that was prepared and checked, and changed only in front of the
IP header afterwards. -/
theorem Prepared.rewritten_iff (hp : Prepared way env (NETWORK_HEADER + vlan) skb g)
    (hsums : Checksums env) (hdhcp : IsDhcp way env vlan skb) {skb' : Skb} {t : Traced}
    (hmem : ∀ i, NETWORK_HEADER + vlan ≤ i → skb'.mem i =
      (g.put16 (udphdr skb (NETWORK_HEADER + vlan) + 6)
        (udpCheck env g (NETWORK_HEADER + vlan) vlan)).mem i)
    (hwrites : ((bootpField way env skb (NETWORK_HEADER + vlan)).1,
      (bootpField way env skb (NETWORK_HEADER + vlan)).2.length) ∈ t.writes)
    (haddress : Readdressed way skb skb' (NETWORK_HEADER + vlan))
    (hinside : Inside skb' (t.reads ++ t.writes) ↔
      fieldsEnd way env skb (NETWORK_HEADER + vlan) ≤ NETWORK_HEADER + skb.len) :
    Rewritten way env vlan skb skb' t ↔
      fieldsEnd way env skb (NETWORK_HEADER + vlan) ≤ NETWORK_HEADER + skb.len ∧
      (way = .outward → IpVerifies skb (NETWORK_HEADER + vlan)) ∧ TailFits way env vlan skb := by
  obtain ⟨hip, hudp⟩ := hp.verifies_iff hsums hdhcp
  obtain ⟨hip', hudp'⟩ := verifies_congr hmem
  have hplace := @bootpField_behind env skb (NETWORK_HEADER + vlan) way
  have huh : NETWORK_HEADER + vlan ≤ udphdr skb (NETWORK_HEADER + vlan) := Nat.le_add_right _ _
  constructor
  · rintro ⟨_, _, hipv, hudpv, hins⟩
    exact ⟨hinside.mp hins, hip.mp (hip'.mp hipv), hudp.mp (hudp'.mp hudpv)⟩
  · rintro ⟨hend, hipv, htail⟩
    refine ⟨⟨hwrites, ?_⟩, haddress, hip'.mpr (hip.mpr hipv), hudp'.mpr (hudp.mpr htail),
      hinside.mpr hend⟩
    rw [Skb.bytes_congr fun i _ _ => hmem i (by omega)]
    exact hp.field _

end

section

variable {env : Env} {jiffies vlan : Nat} {h : Hook}

/-- On a little-endian host no DHCP packet is rewritten. -/
theorem rewriting_little (way : Way) (skb : Skb) : (rewriting way .little env vlan skb).writes = [] := by
  cases way with
  | inward =>
      have hnot : fromDhcpServerOn .little env skb (NETWORK_HEADER + vlan) = false := by
        simp [fromDhcpServerOn, isUdp_little]
      simp only [rewriting, tracedBootpIn, hnot, Bool.false_eq_true, if_false, ite_self]
      rfl
  | outward =>
      have hnot : toDhcpServerOn .little env skb (NETWORK_HEADER + vlan) = false := by
        simp [toDhcpServerOn, isUdp_little]
      simp only [rewriting, tracedBootpOut, hnot, Bool.false_eq_true, if_false]
      rfl

theorem rewritten_in_iff (hsums : Checksums env) (hdhcp : IsDhcp .inward env vlan h.skb) :
    Rewritten .inward env vlan h.skb (rewritten .inward .big env jiffies vlan h)
        (rewriting .inward .big env vlan h.skb) ↔
      fieldsEnd .inward env h.skb (NETWORK_HEADER + vlan) ≤ NETWORK_HEADER + h.skb.len ∧
      (Way.inward = .outward → IpVerifies h.skb (NETWORK_HEADER + vlan)) ∧
      TailFits .inward env vlan h.skb := by
  have hheader := hdhcp.header
  have huh : udphdr h.skb (NETWORK_HEADER + vlan) =
      NETWORK_HEADER + vlan + ihl h.skb (NETWORK_HEADER + vlan) := rfl
  by_cases hlong : h.skb.len < 14 + 20 + vlan
  · have hend : ¬ fieldsEnd .inward env h.skb (NETWORK_HEADER + vlan) ≤ NETWORK_HEADER + h.skb.len := by
      simp only [fieldsEnd, GIADDR_OFFSET]
      omega
    constructor
    · rintro ⟨⟨hwrites, _⟩, _⟩
      rw [rewriting, tracedBootpIn, if_pos hlong] at hwrites
      cases hwrites
    · exact fun hcond => absurd hcond.1 hend
  · have hskb : rewritten .inward .big env jiffies vlan h =
        (tracedBootpIn .big env vlan h.skb).skb := by
      simp only [rewritten, doInIp, if_neg hlong, recognised_in hdhcp, if_true, Bool.false_and,
        Bool.false_eq_true, if_false]
      exact (tracedBootpIn_skb hlong (recognised_in hdhcp)).symm
    have hiph : 14 ≤ NETWORK_HEADER + vlan := Nat.le_add_right _ _
    have hp := @prepared_in env h.skb (NETWORK_HEADER + vlan) hsums hiph hheader
    obtain ⟨hdaddr, hport, hmac⟩ :=
      @preparedIn_destination env h.skb (NETWORK_HEADER + vlan) hiph hheader
    have hbefore : ∀ i, i < udphdr h.skb (NETWORK_HEADER + vlan) + 6 → ∀ check,
        ((preparedIn env h.skb (NETWORK_HEADER + vlan)).put16
          (udphdr h.skb (NETWORK_HEADER + vlan) + 6) check).mem i =
            (preparedIn env h.skb (NETWORK_HEADER + vlan)).mem i := by
      intro i hi check
      rw [Skb.put16_eq, Skb.put_outside _ _ (Or.inl hi)]
    have hread := @Prepared.inside_checkReads _ _ _ _ _ (rewritten .inward .big env jiffies vlan h)
      hp hdhcp
    have heq := tracedBootpIn_eq hlong hdhcp
    dsimp only at heq
    rw [hskb, rewriting, heq]
    rw [hskb, heq] at hread
    refine hp.rewritten_iff hsums hdhcp (fun _ _ => rfl) ?_ ⟨?_, ?_, ?_⟩ ?_
    · simp [bootpField]
    · rw [Skb.u32_congr fun i _ _ => hbefore i (by omega) _]
      exact hdaddr
    · rw [Skb.u16_congr fun i _ _ => hbefore i (by omega) _]
      exact hport
    · funext k
      exact (hbefore (0 + k.val) (by omega) _).trans (congrFun hmac k)
    · have hlen : ∀ check, ((preparedIn env h.skb (NETWORK_HEADER + vlan)).put16
          (udphdr h.skb (NETWORK_HEADER + vlan) + 6) check).len = h.skb.len := fun _ => hp.len
      have hinside := hdhcp.inside
      have hdatagram := hdhcp.datagram
      constructor
      · intro hin
        have hclient := hin (udphdr h.skb (NETWORK_HEADER + vlan) + 8 + GIADDR_OFFSET + 4, 6) (by simp)
        rw [hlen] at hclient
        exact hclient
      · intro hend
        have hend : udphdr h.skb (NETWORK_HEADER + vlan) + 8 + GIADDR_OFFSET + 4 + 6 ≤
          NETWORK_HEADER + h.skb.len := hend
        simp only [Inside, List.forall_mem_append, hlen]
        refine ⟨⟨⟨⟨?_, ?_⟩, ?_⟩, ?_⟩, ?_⟩
        · simp only [testReads, List.mem_cons, List.not_mem_nil, or_false, forall_eq_or_imp, forall_eq]
          omega
        · simpa using hend
        · simp only [List.mem_singleton, forall_eq, ihl_clearedIn hiph hheader]
          omega
        · have hchecked := hread (hlen _)
          rw [Inside, hlen] at hchecked
          exact hchecked
        · simp only [List.mem_cons, List.not_mem_nil, or_false, forall_eq_or_imp, forall_eq]
          omega

/-- On the way out the field that is set is all that is used. -/
theorem fieldsEnd_out (env : Env) (skb : Skb) (iph : Nat) :
    fieldsEnd .outward env skb iph = (bootpField .outward env skb iph).1 +
      (bootpField .outward env skb iph).2.length := by
  unfold fieldsEnd bootpField
  dsimp only
  split
  · rw [be32_length]
  · rfl

theorem rewritten_out_iff (hsums : Checksums env) (hdhcp : IsDhcp .outward env vlan h.skb) :
    Rewritten .outward env vlan h.skb (rewritten .outward .big env jiffies vlan h)
        (rewriting .outward .big env vlan h.skb) ↔
      fieldsEnd .outward env h.skb (NETWORK_HEADER + vlan) ≤ NETWORK_HEADER + h.skb.len ∧
      (Way.outward = .outward → IpVerifies h.skb (NETWORK_HEADER + vlan)) ∧
      TailFits .outward env vlan h.skb := by
  have hheader := hdhcp.header
  have huh : udphdr h.skb (NETWORK_HEADER + vlan) =
      NETWORK_HEADER + vlan + ihl h.skb (NETWORK_HEADER + vlan) := rfl
  have hp := @prepared_out env h.skb (NETWORK_HEADER + vlan) hheader
  have hskb : rewritten .outward .big env jiffies vlan h =
      (tracedBootpOut .big env vlan h.skb).skb.putMac 6 env.devAddr := by
    have hsame : (doIpOut env jiffies vlan h).2.skb = h.skb := by
      unfold doIpOut
      dsimp only
      split <;> rfl
    simp only [rewritten, doOutIp, if_pos hdhcp.enabled, hsame, if_true]
    rfl
  have hread := @Prepared.inside_checkReads _ _ _ _ _ (rewritten .outward .big env jiffies vlan h)
    hp hdhcp
  have heq := tracedBootpOut_eq hdhcp
  dsimp only at heq
  rw [hskb, rewriting, heq]
  rw [hskb, heq] at hread
  refine hp.rewritten_iff hsums hdhcp (fun i hi => ?_) List.mem_cons_self trivial ?_
  · exact Skb.putMac_outside _ _ (Or.inr (by simp only [NETWORK_HEADER] at hi; omega))
  · have hlen : ∀ check, (((preparedOut env h.skb (NETWORK_HEADER + vlan)).put16
        (udphdr h.skb (NETWORK_HEADER + vlan) + 6) check).putMac 6 env.devAddr).len = h.skb.len :=
      fun _ => hp.len
    have hinside := hdhcp.inside
    have hdatagram := hdhcp.datagram
    rw [fieldsEnd_out]
    constructor
    · intro hin
      have hfield := hin ((bootpField .outward env h.skb (NETWORK_HEADER + vlan)).1,
        (bootpField .outward env h.skb (NETWORK_HEADER + vlan)).2.length) (by simp)
      rw [hlen] at hfield
      exact hfield
    · intro hend
      simp only [Inside, List.forall_mem_append, hlen]
      refine ⟨⟨⟨?_, ?_⟩, ?_⟩, ?_⟩
      · simp only [testReads, List.mem_cons, List.not_mem_nil, or_false, forall_eq_or_imp, forall_eq]
        omega
      · rw [List.forall_mem_singleton]
        split
        · dsimp only
          omega
        · exact hend
      · have hchecked := hread (hlen _)
        rw [Inside, hlen] at hchecked
        exact hchecked
      · simp only [List.mem_cons, List.not_mem_nil, or_false, forall_eq_or_imp, forall_eq]
        omega

end

/-- For every DHCP frame on its way in or out, and on either kind of host:
the frame becomes a valid packet, by accesses inside it, iff the host is
big-endian, the BOOTP fields are in the frame, the IP header was right (on
the way out it is left alone), and what is behind the datagram fits. -/
theorem dhcp_rewritten_iff (way : Way) (e : ByteOrder) (env : Env) (jiffies vlan : Nat) (h : Hook)
    (hsums : Checksums env) (hdhcp : IsDhcp way env vlan h.skb) :
    Rewritten way env vlan h.skb (rewritten way e env jiffies vlan h)
        (rewriting way e env vlan h.skb) ↔
      e = .big ∧ fieldsEnd way env h.skb (NETWORK_HEADER + vlan) ≤ NETWORK_HEADER + h.skb.len ∧
      (way = .outward → IpVerifies h.skb (NETWORK_HEADER + vlan)) ∧
      TailFits way env vlan h.skb := by
  cases e with
  | little =>
      constructor
      · rintro ⟨⟨hwrites, _⟩, _⟩
        rw [rewriting_little] at hwrites
        cases hwrites
      · rintro ⟨hbig, _⟩
        cases hbig
  | big =>
      cases way with
      | inward => simpa using rewritten_in_iff hsums hdhcp
      | outward => simpa using rewritten_out_iff hsums hdhcp

/-! ## A request and an answer -/

/-- The settings of `plainEnv`, with checksum functions. -/
def checksumEnv : Env := { plainEnv with
  ipFastCsum := fun mem off n =>
    checksum (sum16 ((List.range (n * 4)).map fun k => mem (off + k)))
  csumPartial := fun mem off size =>
    UInt32.ofNat (fold16 (sum16 ((List.range size.toNat).map fun k => mem (off + k))))
  csumTcpudpMagic := fun saddr daddr len proto csum =>
    checksum (halves saddr + halves daddr + len.toNat + proto.toNat + csum.toNat) }

/-- Folding a part of a sum first makes no difference. -/
theorem checksum_add_fold16 (m n : Nat) : checksum (m + fold16 n) = checksum (m + n) := by
  have hmod := fold16_mod n
  by_cases hn : n = 0
  · rw [hn]
    rfl
  · have hpos : 0 < fold16 n := by
      unfold fold16
      rw [if_neg hn]
      omega
    rw [checksum_eq_iff (by omega) (by omega)]
    omega

theorem checksums_checksumEnv : Checksums checksumEnv := by
  refine ⟨fun _ _ _ => rfl, fun skb off size saddr daddr len proto => ?_⟩
  have hfold := fold16_le (sum16 (skb.bytes off size.toNat))
  have hsum : (UInt32.ofNat (fold16 (sum16 (skb.bytes off size.toNat)))).toNat =
      fold16 (sum16 (skb.bytes off size.toNat)) := Nat.mod_eq_of_lt (by omega)
  change checksum (_ + (UInt32.ofNat (fold16 (sum16 (skb.bytes off size.toNat)))).toNat) = _
  rw [hsum, checksum_add_fold16]

/-- A DHCPDISCOVER of a client behind the bridge, with `rest` behind the IP
datagram. -/
def discover (rest : List UInt8) : Skb :=
  frameOf ([0xff, 0xff, 0xff, 0xff, 0xff, 0xff] ++ List.ofFn hostA ++ [8, 0] ++
    [0x45, 0, 0x01, 0x48, 0, 0, 0, 0, 64, 17, 0x79, 0xa6, 0, 0, 0, 0, 255, 255, 255, 255] ++
    [0, 68, 0, 67, 0x01, 0x34, 0, 0] ++ [1, 1, 6, 0] ++ List.replicate 24 0 ++ List.ofFn hostA ++
    List.replicate 266 0 ++ rest)

theorem isDhcp_discover : IsDhcp .outward checksumEnv 0 (discover []) :=
  ⟨by decide, by unfold IsIp; decide, by decide, by decide, by decide, by decide,
    by decide +kernel, by decide +kernel, by unfold Served; decide⟩

theorem isDhcp_discover_padded : IsDhcp .outward checksumEnv 0 (discover [0, 0]) :=
  ⟨by decide, by unfold IsIp; decide, by decide, by decide, by decide, by decide,
    by decide +kernel, by decide +kernel, by unfold Served; decide⟩

/-- Without anything behind it the request becomes a broadcast one. -/
theorem dhcp_rewritten_discover :
    Rewritten .outward checksumEnv 0 (discover [])
      (rewritten .outward .big checksumEnv 0 0 ⟨discover [], [], -1, []⟩)
      (rewriting .outward .big checksumEnv 0 (discover [])) :=
  (dhcp_rewritten_iff .outward .big checksumEnv 0 0 ⟨discover [], [], -1, []⟩ checksums_checksumEnv
    isDhcp_discover).mpr
    ⟨rfl, by decide +kernel, fun _ => by decide, by unfold TailFits; decide +kernel⟩

/-- With two bytes behind it the request gets a checksum for two bytes more
than it has. On a little-endian host it is not rewritten. -/
theorem dhcp_broken_discover :
    Checksums checksumEnv ∧
    (IsDhcp .outward checksumEnv 0 (discover [0, 0]) ∧
      ¬ Rewritten .outward checksumEnv 0 (discover [0, 0])
        (rewritten .outward .big checksumEnv 0 0 ⟨discover [0, 0], [], -1, []⟩)
        (rewriting .outward .big checksumEnv 0 (discover [0, 0]))) ∧
    IsDhcp .outward checksumEnv 0 (discover []) ∧
      ¬ Rewritten .outward checksumEnv 0 (discover [])
        (rewritten .outward .little checksumEnv 0 0 ⟨discover [], [], -1, []⟩)
        (rewriting .outward .little checksumEnv 0 (discover [])) := by
  refine ⟨checksums_checksumEnv, ⟨isDhcp_discover_padded, fun hgood => ?_⟩, isDhcp_discover,
    fun hgood => ?_⟩
  · have htail := ((@rewritten_out_iff checksumEnv 0 0 ⟨discover [0, 0], [], -1, []⟩
      checksums_checksumEnv isDhcp_discover_padded).mp hgood).2.2
    have hnot : ¬ TailFits .outward checksumEnv 0 (discover [0, 0]) := by
      unfold TailFits
      decide +kernel
    exact hnot htail
  · have hwrites := hgood.field.1
    rw [rewriting_little] at hwrites
    cases hwrites

end UbntSdk.Arpnat
