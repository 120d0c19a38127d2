/-
UbntSdk.Wprobe.RemoteTheorems — when remote access to the wireless probe
does not show the byte orders of the two hosts.

A message that goes from one host to another arrives as `conveyed`: all is
as it was, but a payload that `attribute_policy` does not list is still in
the order of the sender. Of the attributes that the probe uses this is
`WPROBE_ATTR_DURATION`. And the header with which the server ends an answer
is written in the order of the server, while the client takes it to be in
network order, as every other header is.

`transparent_iff` puts the two together for a whole request: any request,
any answers of the kernel, any error code, and all four pairs of hosts.
-/
import UbntSdk.Wprobe.SwapTheorems

namespace UbntSdk.Wprobe

open UbntSdk.Lib UbntSdk.Lib.Netlink

/-! ## Words in the other order -/

theorem ofWord16_other (x : UInt16) : ofWord16 .big (word16 .little x) = swab16 x := by
  have h : word16 .big (swab16 x) = word16 .little x := by
    rw [show ByteOrder.big = ByteOrder.little.flip from rfl, word16_flip, word16_swab16,
      List.reverse_reverse]
  rw [← h, ofWord16_word16]

theorem ofWord32_other (x : UInt32) : ofWord32 .big (word32 .little x) = swab32 x := by
  have h : word32 .big (swab32 x) = word32 .little x := by
    rw [show ByteOrder.big = ByteOrder.little.flip from rfl, word32_flip, word32_swab32,
      List.reverse_reverse]
  rw [← h, ofWord32_word32]

theorem ofWord64_other (x : UInt64) : ofWord64 .big (word64 .little x) = swab64 x := by
  have h : word64 .big (swab64 x) = word64 .little x := by
    rw [show ByteOrder.big = ByteOrder.little.flip from rfl, word64_flip, word64_swab64,
      List.reverse_reverse]
  rw [← h, ofWord64_word64]

theorem swab16_ofWord16 (x : UInt16) : swab16 (ofWord16 .little (word16 .big x)) = x := by
  rw [← ofWord16_other, word16_ofWord16 _ (word16_length _ _), ofWord16_word16]

theorem swab32_ofWord32 (x : UInt32) : swab32 (ofWord32 .little (word32 .big x)) = x := by
  rw [← ofWord32_other, word32_ofWord32 _ (word32_length _ _), ofWord32_word32]

/-! ## Headers -/

@[simp] theorem MsgHdr.bytes_length (e : ByteOrder) (mhdr : MsgHdr) :
    (mhdr.bytes e).length = MsgHdr.SIZE := by
  simp [MsgHdr.bytes, MsgHdr.SIZE]

theorem word16_other (x : UInt16) : word16 .little (swab16 x) = word16 .big x := by
  rw [word16_swab16, ← word16_flip]
  rfl

theorem word32_other (x : UInt32) : word32 .little (swab32 x) = word32 .big x := by
  rw [word32_swab32, ← word32_flip]
  rfl

/-- A header that was swapped is in network order. -/
theorem swapMsgHdr_bytes (e : ByteOrder) (mhdr : MsgHdr) :
    (swapMsgHdr e mhdr).bytes e = mhdr.bytes .big := by
  cases e with
  | big => rfl
  | little => simp [swapMsgHdr, MsgHdr.bytes, word16_other, word32_other]

/-- What a host makes of a header in the order `o`: it is right only if
that is network order. -/
theorem swapMsgHdr_ofBytes (e o : ByteOrder) (mhdr : MsgHdr) :
    (MsgHdr.ofBytes e (mhdr.bytes o)).map (swapMsgHdr e) = some (swapMsgHdr o mhdr) := by
  have hloads : MsgHdr.ofBytes e (mhdr.bytes o) = some ⟨ofWord16 e (word16 o mhdr.status),
      ofWord16 e (word16 o mhdr.error), ofWord32 e (word32 o mhdr.len)⟩ := by
    have hlast := load32?_head e o mhdr.len []
    rw [List.append_nil] at hlast
    simp [MsgHdr.ofBytes, MsgHdr.bytes, load16?_skip, load32?_skip, load16?_head, hlast]
  rw [hloads]
  cases e <;> cases o <;>
    simp [swapMsgHdr, ofWord16_other, ofWord32_other, swab16_ofWord16, swab32_ofWord32]

theorem swapNlmsghdr_nlmsghdr (e o : ByteOrder) (m : Message) (tail : List UInt8) :
    swapNlmsghdr e (m.nlmsghdr o ++ tail) = some (m.nlmsghdr (hostSwap e o) ++ tail) := by
  simp [swapNlmsghdr, Message.nlmsghdr, swap16At_eq, swap32At_eq, swapAt_skip, swapAt_word16,
    swapAt_word32]

theorem readSocket_append (bs rest : List UInt8) :
    readSocket bs.length (bs ++ rest) = some (bs, rest) := by
  simp [readSocket]

/-! ## One message -/

/-- A message that the other side takes. -/
def Message.Fits (m : Message) : Prop := m.size ≤ WPROBE_MAX_MSGLEN

theorem Message.Fits.attrs {m : Message} (h : m.Fits) : m.attrs.size < 2 ^ 16 := by
  simp only [Message.Fits, Message.size, MSG_HDRLEN, WPROBE_MAX_MSGLEN] at h
  omega

/-- The header in front of a message. -/
def dataHdr (m : Message) : MsgHdr := ⟨WPROBE_MSG_DATA, 0, UInt32.ofNat m.size⟩

/-- The message as it is sent. -/
def wire (e : ByteOrder) (m : Message) : List UInt8 := m.encode .big (swapped e fun _ => e)

/-- A header and the message. -/
def frame (e : ByteOrder) (m : Message) : List UInt8 := (dataHdr m).bytes .big ++ wire e m

/-- The pass over the attributes of a message. -/
theorem swapNested_message (e : ByteOrder) (outgoing : Bool) (o : ByteOrder) (v : Attr → ByteOrder)
    {m : Message} (h : m.Fits) {fuel : Nat} (hfuel : m.size ≤ fuel) (tail : List UInt8) :
    swapNested e outgoing fuel MSG_HDRLEN m.size (m.nlmsghdr o ++ (m.genlmsghdr ++
        (m.attrs.encode attrFamily (orderFrom e outgoing) v ++ tail))) =
      some (m.nlmsghdr o ++ (m.genlmsghdr ++
        (m.attrs.encode attrFamily (orderTo e outgoing) (swapped e v) ++ tail))) := by
  have hfuel' : m.attrs.size ≤ fuel := by
    simp only [Message.size] at hfuel
    omega
  have hall := swapNested_encode e outgoing v m.typed h.attrs hfuel' (m.nlmsghdr o ++ m.genlmsghdr)
    tail
  simpa [Message.size, MSG_HDRLEN] using hall

theorem msgToNetwork_bytes (e : ByteOrder) {m : Message} (h : m.Fits) :
    msgToNetwork e (m.bytes e) = some (frame e m) := by
  have hlen := (m.load_encode e (fun _ => e) []).1
  have hcopy : peek? (m.bytes e) 0 m.size = some (m.bytes e) := by
    have hall := peek?_append [] (m.bytes e) [] rfl (m.encode_length e fun _ => e).symm
    simpa using hall
  have hpass := swapNested_message e true e (fun _ => e) h (Nat.le_succ m.size) []
  have hhdr := swapNlmsghdr_nlmsghdr e e m (m.genlmsghdr ++
    m.attrs.encode attrFamily .big (swapped e fun _ => e))
  simp only [List.append_nil] at hlen hpass
  simp only [Message.bytes, Message.encode, orderFrom, orderTo, if_true] at hlen hcopy hpass
  simp only [msgToNetwork, Message.bytes, Message.encode, hlen, m.toNat_size, hcopy, hpass, hhdr,
    swapMsgHdr_bytes, Option.bind_eq_bind, Option.bind_some, Option.pure_def, hostSwap_self]
  rfl

/-- The header says how long the message is, whatever the pass makes of
it. -/
theorem msgToNetwork_hdr {e : ByteOrder} {m : Message} {sent : List UInt8}
    (h : msgToNetwork e (m.bytes e) = some sent) :
    ∃ buf, sent = (dataHdr m).bytes .big ++ buf := by
  have hlen := (m.load_encode e (fun _ => e) []).1
  rw [List.append_nil] at hlen
  simp only [msgToNetwork, Message.bytes, hlen, swapMsgHdr_bytes, Option.bind_eq_bind,
    Option.bind_some, Option.pure_def, Option.bind_eq_some_iff, Option.some.injEq] at h
  obtain ⟨_, -, _, -, buf, -, rfl⟩ := h
  exact ⟨buf, rfl⟩

/-- What `wprobe_msg_from_network` does once `len` bytes are read, with the
buffer as the memory: an access outside of it is `none`. -/
def swapMsg (e : ByteOrder) (len : Nat) (buf : List UInt8) : Option (Option (List UInt8)) := do
  let buf ← swapNlmsghdr e buf
  let nlmsgLen ← load32? e buf 0
  if len < nlmsgLen.toNat then return none
  let buf ← swapNested e false (len + 1) MSG_HDRLEN nlmsgLen.toNat buf
  return some buf

/-- `wprobe_msg_from_network` is a read and the pass over its buffer. -/
theorem msgFromNetwork_eq (e : ByteOrder) (socket : List UInt8) (len : Nat) :
    msgFromNetwork e socket len =
      match readSocket len socket with
      | none => some none
      | some (nlh, socket) =>
          (swapMsg e len (nlh ++ List.replicate 32 0)).map (·.map fun buf => (buf, socket)) := by
  unfold msgFromNetwork
  cases readSocket len socket with
  | none => rfl
  | some read =>
      obtain ⟨nlh, socket⟩ := read
      dsimp only
      generalize nlh ++ List.replicate 32 (0 : UInt8) = buf
      cases hhdr : swapNlmsghdr e buf with
      | none => simp [swapMsg, hhdr]
      | some buf =>
          cases hlen : load32? e buf 0 with
          | none => simp [swapMsg, hhdr, hlen]
          | some nlmsgLen =>
              by_cases hlong : len < nlmsgLen.toNat
              · simp [swapMsg, hhdr, hlen, hlong]
              · cases hpass : swapNested e false (len + 1) MSG_HDRLEN nlmsgLen.toNat buf <;>
                  simp [swapMsg, hhdr, hlen, hlong, hpass]

/-- A message with all its attributes in full is swapped within its bytes. -/
theorem swapMsg_encode (e : ByteOrder) (v : Attr → ByteOrder) {m : Message} (h : m.Fits)
    (slack : List UInt8) :
    swapMsg e m.size (m.encode .big v ++ slack) =
      some (some (m.encode e (swapped e v) ++ slack)) := by
  have hhdr := swapNlmsghdr_nlmsghdr e .big m
    (m.genlmsghdr ++ (m.attrs.encode attrFamily .big v ++ slack))
  have hpass := swapNested_message e false e v h (Nat.le_succ m.size) slack
  have hlen : load32? e (m.nlmsghdr e ++ (m.genlmsghdr ++
      (m.attrs.encode attrFamily .big v ++ slack))) 0 = some (UInt32.ofNat m.size) := by
    simp [Message.nlmsghdr, load32?_head]
  simp only [orderFrom, orderTo, Bool.false_eq_true, if_false] at hpass
  simp only [swapMsg, Message.encode, List.append_assoc, hhdr, hostSwap_big, hlen, m.toNat_size,
    hpass, Nat.lt_irrefl, if_false, Option.bind_eq_bind, Option.bind_some, Option.pure_def]

theorem msgFromNetwork_encode (e : ByteOrder) (v : Attr → ByteOrder) {m : Message} (h : m.Fits)
    (rest : List UInt8) :
    msgFromNetwork e (m.encode .big v ++ rest) m.size =
      some (some (m.encode e (swapped e v) ++ List.replicate 32 0, rest)) := by
  have hread := readSocket_append (m.encode .big v) rest
  rw [Message.encode_length] at hread
  rw [msgFromNetwork_eq, hread]
  dsimp only
  rw [swapMsg_encode e v h]
  rfl

/-- The order in which a payload arrives. -/
theorem swapped_swapped (sender receiver : ByteOrder) (a : Attr) :
    swapped receiver (swapped sender fun _ => sender) a = if listed a then receiver else sender := by
  cases h : listed a <;> simp [swapped, h]

/-- The buffer of the host `receiver` for a message of the host `sender`. -/
def received (sender receiver : ByteOrder) (m : Message) : List UInt8 :=
  m.encode receiver (swapped receiver (swapped sender fun _ => sender)) ++ List.replicate 32 0

/-- What the host `receiver` reads of it. -/
def conveyed (sender receiver : ByteOrder) (m : Message) : Message :=
  m.reread (swapped receiver (swapped sender fun _ => sender)) receiver

theorem decode_received (sender receiver : ByteOrder) {m : Message} (h : m.Fits) :
    Message.decode receiver (received sender receiver m) = some (conveyed sender receiver m) :=
  m.decode_encode receiver _ h.attrs _

theorem msgFromNetwork_wire (sender receiver : ByteOrder) {m : Message} (h : m.Fits)
    (rest : List UInt8) :
    msgFromNetwork receiver (wire sender m ++ rest) m.size =
      some (some (received sender receiver m, rest)) :=
  msgFromNetwork_encode receiver _ h rest

/-- Every duration in the message, at any depth, is the same number in
either order. -/
def Message.PlainDurations (m : Message) : Prop :=
  ∀ x, (Attr.duration, Datum.u64 x) ∈ m.attrs.leaves → swab64 x = x

/-- The duration is the only number of several bytes that the table does not
list. -/
theorem duration_of_not_listed {a : Attr} (h : listed a = false) :
    a = .duration ∨ a.kind = .u8 ∨ a.kind = .bytes ∨ a.kind = .nested := by
  cases a <;> simp_all [listed, attributePolicy, Attr.kind]

theorem conveyed_eq_self_iff (sender receiver : ByteOrder) (m : Message) :
    conveyed sender receiver m = m ↔ sender = receiver ∨ m.PlainDurations := by
  have hattrs : conveyed sender receiver m = m ↔
      ∀ l ∈ m.attrs.leaves, (if listed l.1 then receiver else sender) = receiver ∨ l.2.flip = l.2 := by
    simp only [← swapped_swapped, ← Attrs.reread_eq_self_iff]
    constructor
    · intro h
      exact congrArg Message.attrs h
    · intro h
      cases m
      simp only [conveyed, Message.reread, Message.mk.injEq] at h ⊢
      simp [h]
  rw [hattrs]
  by_cases hsr : sender = receiver
  · simp [hsr]
  simp only [hsr, false_or]
  constructor
  · intro h x hx
    rcases h _ hx with hsame | hflip
    · exact absurd hsame (by simp [listed, attributePolicy, hsr])
    · simpa [Datum.flip, ofWord64_other] using hflip
  · intro h l hl
    cases hlisted : listed l.1 with
    | true => simp
    | false =>
        right
        have hkind := Attrs.kind_of_mem_leaves attrFamily m.typed hl
        obtain ⟨a, p⟩ := l
        rcases duration_of_not_listed hlisted with rfl | hk | hk | hk
        · obtain ⟨x, rfl⟩ : ∃ x, p = .u64 x := by
            cases p <;> simp_all [Datum.kind, attrFamily, Attr.kind]
          simp [Datum.flip, ofWord64_other, h x hl]
        · cases p <;> simp_all [Datum.kind, Datum.flip, attrFamily]
        · cases p <;> simp_all [Datum.kind, Datum.flip, attrFamily]
        · exact absurd (hkind.trans hk) p.kind_ne_nested

/-! ## The client -/

theorem dataHdr_len (m : Message) : (dataHdr m).len.toNat = m.size := m.toNat_size

/-- A header in network order is read as it was. -/
theorem ofBytes_big (e : ByteOrder) (mhdr : MsgHdr) :
    ∃ raw, MsgHdr.ofBytes e (mhdr.bytes .big) = some raw ∧ swapMsgHdr e raw = mhdr := by
  have h := swapMsgHdr_ofBytes e .big mhdr
  rw [Option.map_eq_some_iff] at h
  exact h

theorem readSocket_hdr (o : ByteOrder) (mhdr : MsgHdr) (rest : List UInt8) :
    readSocket MsgHdr.SIZE (mhdr.bytes o ++ rest) = some (mhdr.bytes o, rest) := by
  have h := readSocket_append (mhdr.bytes o) rest
  rwa [MsgHdr.bytes_length] at h

/-- A message that fits is handed to the callback. -/
theorem remoteReceive_frame (sender e : ByteOrder) {m : Message} (h : m.Fits) (fuel msgs : Nat)
    (rest : List UInt8) :
    remoteReceive e (fuel + 1) msgs (frame sender m ++ rest) =
      (remoteReceive e fuel (msgs + 1) rest).map fun reply =>
        ⟨received sender e m :: reply.got, reply.outcome⟩ := by
  obtain ⟨raw, hraw, hhdr⟩ := ofBytes_big e (dataHdr m)
  have hfit : ¬WPROBE_MAX_MSGLEN < m.size := Nat.not_lt.mpr h
  have hstatus : (dataHdr m).status = WPROBE_MSG_DATA := rfl
  rw [frame, List.append_assoc, remoteReceive, readSocket_hdr]
  simp only [hraw, hhdr, hstatus, dataHdr_len, hfit, if_true, if_false, msgFromNetwork_wire sender e h,
    Option.bind_eq_bind, Option.bind_some, Option.pure_def, Option.map_eq_bind, Function.comp_def]

/-- At a longer one the client gives up. -/
theorem remoteReceive_long (e : ByteOrder) {m : Message} (h : ¬m.Fits) (fuel msgs : Nat)
    (rest : List UInt8) :
    remoteReceive e (fuel + 1) msgs ((dataHdr m).bytes .big ++ rest) = some ⟨[], .exit⟩ := by
  obtain ⟨raw, hraw, hhdr⟩ := ofBytes_big e (dataHdr m)
  have hlong : WPROBE_MAX_MSGLEN < m.size := Nat.not_le.mp h
  have hstatus : (dataHdr m).status = WPROBE_MSG_DATA := rfl
  rw [remoteReceive, readSocket_hdr]
  simp only [hraw, hhdr, hstatus, dataHdr_len, hlong, if_true, Option.bind_eq_bind,
    Option.bind_some, Option.pure_def]

/-- What a request returns for the error in the last header. -/
def codeOf (error : UInt16) (msgs : Nat) : Int := if error ≠ 0 then -(error.toNat : Int) else msgs

/-- The last header is read as if it were in network order. -/
theorem remoteReceive_done (server e : ByteOrder) (ret : Int) (fuel msgs : Nat) :
    remoteReceive e (fuel + 1) msgs ((doneHdr ret).bytes server) =
      some ⟨[], .ret (codeOf (swapMsgHdr server (doneHdr ret)).error msgs)⟩ := by
  have h := swapMsgHdr_ofBytes e server (doneHdr ret)
  rw [Option.map_eq_some_iff] at h
  obtain ⟨raw, hraw, hhdr⟩ := h
  have hstatus : (swapMsgHdr server (doneHdr ret)).status = WPROBE_MSG_DONE := by
    have hzero : swab16 WPROBE_MSG_DONE = WPROBE_MSG_DONE := by decide
    cases server <;> simp [swapMsgHdr, doneHdr, hzero]
  have hne : ¬WPROBE_MSG_DONE = WPROBE_MSG_DATA := by decide
  have hread := readSocket_hdr server (doneHdr ret) []
  rw [List.append_nil] at hread
  rw [remoteReceive, hread]
  simp only [hraw, hhdr, hstatus, hne, if_true, if_false, codeOf, Option.bind_eq_bind,
    Option.bind_some, Option.pure_def]

/-- All messages of an answer are handed to the callback. -/
theorem remoteReceive_frames (server e : ByteOrder) (ret : Int) {ms : List Message}
    (h : ∀ m ∈ ms, m.Fits) {fuel : Nat} (hfuel : ms.length < fuel) (msgs : Nat) :
    remoteReceive e fuel msgs ((ms.map (frame server)).flatten ++ (doneHdr ret).bytes server) =
      some ⟨ms.map (received server e),
        .ret (codeOf (swapMsgHdr server (doneHdr ret)).error (msgs + ms.length))⟩ := by
  induction ms generalizing fuel msgs with
  | nil =>
      obtain ⟨fuel, rfl⟩ : ∃ n, fuel = n + 1 := ⟨fuel - 1, by omega⟩
      simp [remoteReceive_done]
  | cons m ms ih =>
      simp only [List.length_cons] at hfuel
      obtain ⟨fuel, rfl⟩ : ∃ n, fuel = n + 1 := ⟨fuel - 1, by omega⟩
      have hm := h m (by simp)
      have hrest := ih (fun m' hm' => h m' (by simp [hm'])) (by omega : ms.length < fuel) (msgs + 1)
      rw [List.map_cons, List.flatten_cons, List.append_assoc, remoteReceive_frame server e hm, hrest]
      simp [Nat.add_comm, Nat.add_left_comm]

/-- With a message that does not fit the client does not return. -/
theorem remoteReceive_not_fits {server e : ByteOrder} {ms : List Message} (h : ∃ m ∈ ms, ¬m.Fits)
    {data : List (List UInt8)} (hdata : (ms.map (·.bytes server)).mapM (msgToNetwork server) = some data)
    {fuel msgs : Nat} {tail : List UInt8} {reply : Reply}
    (hreply : remoteReceive e fuel msgs (data.flatten ++ tail) = some reply) :
    reply.outcome = .exit := by
  induction ms generalizing fuel msgs data reply with
  | nil => simp at h
  | cons m ms ih =>
      simp only [List.map_cons, List.mapM_cons, Option.bind_eq_bind, Option.bind_eq_some_iff,
        Option.pure_def, Option.some.injEq] at hdata
      obtain ⟨sent, hsent, data, hdata, rfl⟩ := hdata
      cases fuel with
      | zero => simp [remoteReceive] at hreply
      | succ fuel =>
          rw [List.flatten_cons, List.append_assoc] at hreply
          by_cases hm : m.Fits
          · rw [msgToNetwork_bytes server hm] at hsent
            obtain rfl := Option.some.inj hsent
            rw [remoteReceive_frame server e hm, Option.map_eq_some_iff] at hreply
            obtain ⟨rest, hrest, rfl⟩ := hreply
            obtain ⟨m', hmem, hlong⟩ := h
            rcases List.mem_cons.mp hmem with rfl | hmem
            · exact absurd hm hlong
            · have hexit := ih ⟨m', hmem, hlong⟩ hdata hrest
              exact hexit
          · obtain ⟨buf, rfl⟩ := msgToNetwork_hdr hsent
            rw [List.append_assoc, remoteReceive_long e hm] at hreply
            obtain rfl := Option.some.inj hreply
            rfl

/-! ## The server -/

theorem mapM_msgToNetwork (e : ByteOrder) {ms : List Message} (h : ∀ m ∈ ms, m.Fits) :
    (ms.map (·.bytes e)).mapM (msgToNetwork e) = some (ms.map (frame e)) := by
  induction ms with
  | nil => rfl
  | cons m ms ih =>
      have hm := msgToNetwork_bytes e (h m (by simp))
      have hrest := ih fun m' hm' => h m' (by simp [hm'])
      simp [List.mapM_cons, hm, hrest]

/-- The kernel of the server is asked what was conveyed. -/
theorem serverHandle_frame (client server : ByteOrder) (kernel : Netlink) {q : Message} (h : q.Fits) :
    serverHandle server kernel (frame client q) =
      (((kernel (conveyed client server q)).1.map (·.bytes server)).mapM (msgToNetwork server)).map
        fun data => ⟨0, some (received client server q),
          data.flatten ++ (doneHdr (kernel (conveyed client server q)).2).bytes server⟩ := by
  obtain ⟨raw, hraw, hhdr⟩ := ofBytes_big server (dataHdr q)
  have hfit : ¬WPROBE_MAX_MSGLEN < q.size := Nat.not_lt.mpr h
  have hstatus : (dataHdr q).status = WPROBE_MSG_DATA := rfl
  have hmsg := msgFromNetwork_wire client server h []
  rw [List.append_nil] at hmsg
  rw [frame, serverHandle, readSocket_hdr]
  simp only [hraw, hhdr, hstatus, dataHdr_len, hfit, ne_eq, not_true_eq_false, if_false, hmsg,
    localSendMsg, decode_received client server h, Option.bind_eq_bind, Option.bind_some,
    Option.pure_def, Option.map_eq_bind, Function.comp_def]

/-- A longer request is refused. -/
theorem serverHandle_long (server : ByteOrder) (kernel : Netlink) {q : Message} (h : ¬q.Fits)
    (buf : List UInt8) :
    serverHandle server kernel ((dataHdr q).bytes .big ++ buf) = some ⟨-EINVAL, none, []⟩ := by
  obtain ⟨raw, hraw, hhdr⟩ := ofBytes_big server (dataHdr q)
  have hlong : WPROBE_MAX_MSGLEN < q.size := Nat.not_le.mp h
  have hstatus : (dataHdr q).status = WPROBE_MSG_DATA := rfl
  rw [serverHandle, readSocket_hdr]
  simp only [hraw, hhdr, hstatus, dataHdr_len, hlong, ne_eq, not_true_eq_false, if_true, if_false,
    Option.bind_eq_bind, Option.bind_some, Option.pure_def]

/-! ## A whole request -/

theorem length_le_flatten (e : ByteOrder) (ms : List Message) :
    ms.length ≤ (ms.map (frame e)).flatten.length := by
  induction ms with
  | nil => simp
  | cons m ms ih =>
      simp only [List.length_cons, List.map_cons, List.flatten_cons, List.length_append, frame,
        MsgHdr.bytes_length, MsgHdr.SIZE] at ih ⊢
      omega

/-- What comes of a request when everything fits. -/
theorem exchange_fits (client server : ByteOrder) (kernel : Netlink) {q : Message} (hq : q.Fits)
    (hall : ∀ m ∈ (kernel (conveyed client server q)).1, m.Fits) :
    exchange client server kernel q =
      some ⟨some (conveyed client server q),
        (kernel (conveyed client server q)).1.map fun m => some (conveyed server client m),
        .ret (codeOf (swapMsgHdr server (doneHdr (kernel (conveyed client server q)).2)).error
          (kernel (conveyed client server q)).1.length)⟩ := by
  have hhandle := serverHandle_frame client server kernel hq
  rw [mapM_msgToNetwork server hall, Option.map_some] at hhandle
  have hfuel : (kernel (conveyed client server q)).1.length <
      (((kernel (conveyed client server q)).1.map (frame server)).flatten ++
        (doneHdr (kernel (conveyed client server q)).2).bytes server).length + 1 := by
    have hlen := length_le_flatten server (kernel (conveyed client server q)).1
    rw [List.length_append]
    omega
  have hrecv := remoteReceive_frames server client (kernel (conveyed client server q)).2 hall hfuel 0
  have hdecode : (kernel (conveyed client server q)).1.map
      (fun m => Message.decode client (received server client m)) =
      (kernel (conveyed client server q)).1.map fun m => some (conveyed server client m) :=
    List.map_congr_left fun m hm => decode_received server client (hall m hm)
  simp only [exchange, msgToNetwork_bytes client hq, hhandle, hrecv,
    Option.bind_eq_bind, Option.bind_some, Option.pure_def, decode_received client server hq,
    List.map_map, Function.comp_def, hdecode, Nat.zero_add]

/-- The kernel is asked what the client asked, the client reads what the
kernel answered, and returns the error code that the server sent. -/
def Transparent (client server : ByteOrder) (kernel : Netlink) (q : Message) : Prop :=
  exchange client server kernel q =
    some ⟨some q, (kernel q).1.map some,
      .ret (codeOf (doneHdr (kernel q).2).error (kernel q).1.length)⟩

/-- Nothing is too long, and nothing that is not swapped depends on the
order. -/
structure Untouched (client server : ByteOrder) (kernel : Netlink) (q : Message) : Prop where
  fits : ∀ m ∈ q :: (kernel q).1, m.Fits
  durations : client = server ∨ ∀ m ∈ q :: (kernel q).1, m.PlainDurations
  error : server = .big ∨
    swab16 (doneHdr (kernel q).2).error = (doneHdr (kernel q).2).error

/-- Two errors give the same code only if they are the same. -/
theorem codeOf_inj {error error' : UInt16} {msgs : Nat} :
    codeOf error msgs = codeOf error' msgs ↔ error = error' := by
  have hpos : ∀ x : UInt16, x ≠ 0 → 0 < x.toNat := by
    intro x hx
    rw [Nat.pos_iff_ne_zero]
    intro h
    exact hx (UInt16.toNat_inj.mp h)
  constructor
  · intro h
    by_cases h0 : error = 0 <;> by_cases h0' : error' = 0
    · rw [h0, h0']
    · have := hpos _ h0'
      simp only [codeOf, h0, h0', ne_eq, not_true_eq_false, not_false_eq_true, if_true, if_false] at h
      omega
    · have := hpos _ h0
      simp only [codeOf, h0, h0', ne_eq, not_true_eq_false, not_false_eq_true, if_true, if_false] at h
      omega
    · simp only [codeOf, h0, h0', ne_eq, not_false_eq_true, if_true] at h
      exact UInt16.toNat_inj.mp (by omega)
  · intro h
    rw [h]

theorem swapMsgHdr_error (e : ByteOrder) (mhdr : MsgHdr) :
    (swapMsgHdr e mhdr).error = mhdr.error ↔ e = .big ∨ swab16 mhdr.error = mhdr.error := by
  cases e <;> simp [swapMsgHdr]

/-- A request that went through was asked and answered with messages that
fit. -/
theorem Transparent.fits {client server : ByteOrder} {kernel : Netlink} {q : Message}
    (h : Transparent client server kernel q) :
    q.Fits ∧ conveyed client server q = q ∧ ∀ m ∈ (kernel q).1, m.Fits := by
  unfold Transparent exchange at h
  simp only [Option.bind_eq_bind, Option.pure_def, Option.bind_eq_some_iff, Option.some.injEq,
    Exchange.mk.injEq] at h
  obtain ⟨sent, hsent, handled, hhandled, reply, hreply, hasked, -, hout⟩ := h
  by_cases hq : q.Fits
  · rw [msgToNetwork_bytes client hq] at hsent
    obtain rfl := Option.some.inj hsent
    rw [serverHandle_frame client server kernel hq, Option.map_eq_some_iff] at hhandled
    obtain ⟨data, hdata, rfl⟩ := hhandled
    obtain ⟨msg, hmsg, hdecode⟩ := hasked
    obtain rfl := Option.some.inj hmsg
    rw [decode_received client server hq, Option.some.injEq] at hdecode
    rw [hdecode] at hdata hreply
    refine ⟨hq, hdecode, fun m hm => ?_⟩
    -- a message that does not fit would end the client
    by_contra hlong
    have hexit := remoteReceive_not_fits ⟨m, hm, hlong⟩ hdata hreply
    rw [hexit] at hout
    cases hout
  · obtain ⟨buf, rfl⟩ := msgToNetwork_hdr hsent
    rw [serverHandle_long server kernel hq] at hhandled
    obtain rfl := Option.some.inj hhandled
    obtain ⟨msg, hmsg, -⟩ := hasked
    cases hmsg

theorem map_conveyed_iff (sender receiver : ByteOrder) (ms : List Message) :
    (ms.map fun m => some (conveyed sender receiver m)) = ms.map some ↔
      ∀ m ∈ ms, conveyed sender receiver m = m := by
  simp [List.map_inj_left]

/-- Over all pairs of hosts, requests, answers and error codes: remote
access is transparent exactly when every message fits, the hosts have the
same order or the durations read the same in both, and the server is
big-endian or the error code reads the same in both. -/
theorem transparent_iff (client server : ByteOrder) (kernel : Netlink) (q : Message) :
    Transparent client server kernel q ↔ Untouched client server kernel q := by
  constructor
  · intro h
    obtain ⟨hq, hasked, hall⟩ := h.fits
    have heq := exchange_fits client server kernel hq (by rwa [hasked])
    rw [hasked] at heq
    rw [Transparent, heq, Option.some.injEq, Exchange.mk.injEq, map_conveyed_iff, Outcome.ret.injEq,
      codeOf_inj, swapMsgHdr_error] at h
    obtain ⟨-, hanswers, herror⟩ := h
    refine ⟨List.forall_mem_cons.mpr ⟨hq, hall⟩, ?_, herror⟩
    by_cases hcs : client = server
    · exact Or.inl hcs
    · right
      intro m hm
      rcases List.mem_cons.mp hm with rfl | hm
      · exact ((conveyed_eq_self_iff client server m).mp hasked).resolve_left hcs
      · exact ((conveyed_eq_self_iff server client m).mp (hanswers m hm)).resolve_left (Ne.symm hcs)
  · intro h
    have hsame : ∀ m ∈ q :: (kernel q).1,
        conveyed client server m = m ∧ conveyed server client m = m := by
      intro m hm
      rw [conveyed_eq_self_iff, conveyed_eq_self_iff]
      rcases h.durations with hcs | hplain
      · exact ⟨Or.inl hcs, Or.inl hcs.symm⟩
      · exact ⟨Or.inr (hplain m hm), Or.inr (hplain m hm)⟩
    have hasked := (hsame q (by simp)).1
    have heq := exchange_fits client server kernel (h.fits q (by simp)) (by
      rw [hasked]
      exact fun m hm => h.fits m (by simp [hm]))
    rw [hasked] at heq
    rw [Transparent, heq, Option.some.injEq, Exchange.mk.injEq, map_conveyed_iff, Outcome.ret.injEq,
      codeOf_inj, swapMsgHdr_error]
    exact ⟨rfl, fun m hm => (hsame m (by simp [hm])).2, h.error⟩

/-- A request for the values of an interface. -/
def askInfo : Message where
  type := 23
  flags := 0x300
  seq := 0
  pid := 0
  cmd := 2
  version := 0
  attrs := .leaf .interface (.bytes [0x61, 0]) .nil
  typed := by decide
  fits := by decide

/-- A value with the time of its measurement. -/
def valueSince (duration : UInt64) : Message where
  type := 23
  flags := 2
  seq := 0
  pid := 0
  cmd := 2
  version := 1
  attrs := .leaf .id (.u32 1) (.leaf .duration (.u64 duration) (.leaf .valU16 (.u16 300) .nil))
  typed := by simp [Attrs.typed, Datum.kind, attrFamily, Attr.kind]
  fits := by simp [Attrs.size, Datum.size, HDRLEN, align, MSG_HDRLEN]

/-- From a little-endian client to a big-endian server: a value that was
measured just now, and then an error. -/
theorem transparent_now :
    Transparent .little .big (fun _ => ([valueSince 0], -22)) askInfo := by
  refine (transparent_iff _ _ _ _).mpr ⟨?_, Or.inr ?_, Or.inl rfl⟩
  · simp [Message.Fits, Message.size, Attrs.size, Datum.size, HDRLEN, align, MSG_HDRLEN,
      WPROBE_MAX_MSGLEN, askInfo, valueSince]
  · simp [Message.PlainDurations, Attrs.leaves, askInfo, valueSince]
    decide

/-- A duration of 5 comes out as 5 times 2^56 between hosts of different
orders; and the error 22 of a little-endian server comes out as 5632, also on
a little-endian client. -/
theorem transparent_fails_orders :
    ¬Transparent .little .big (fun _ => ([valueSince 5], 0)) askInfo ∧
      ¬Transparent .little .little (fun _ => ([], -22)) askInfo := by
  constructor
  · intro h
    have hattrs := congrArg (Option.map fun x => x.answers.map (Option.map (·.attrs))) h
    revert hattrs
    decide +kernel
  · intro h
    have hout := congrArg (Option.map (·.outcome)) h
    revert hout
    decide +kernel

end UbntSdk.Wprobe
