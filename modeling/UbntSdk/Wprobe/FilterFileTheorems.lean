/-
UbntSdk.Wprobe.FilterFileTheorems — a filter file that is written is the
filter that is installed.

`itemBytes` and `groupBytes` are the format, with the numbers in one order.
The file has them in network order (`genFilter_eq`); the check turns them, part
by part, into the order of the device (`checkGroups_turned`), and then the walk
reads what was written (`walkGroups_holds`).
-/
import UbntSdk.Wprobe.FilterFile
import UbntSdk.Lib.InPlace

namespace UbntSdk.Wprobe

open UbntSdk.Lib UbntSdk.Lib.Memory

/-! ## The format -/

/-- An item: its name and its program, which is empty for a default. -/
abbrev Compiled := CStr × List SockFilter

def hdrBytes (o : ByteOrder) (name : CStr) (n : Nat) : List UInt8 :=
  strncpy name 32 ++ word32 o (UInt32.ofNat n)

def itemBytes (o : ByteOrder) (c : Compiled) : List UInt8 :=
  hdrBytes o c.1 c.2.length ++ c.2.flatMap (SockFilter.bytes o)

def groupBytes (o : ByteOrder) (g : CStr × List Compiled) : List UInt8 :=
  hdrBytes o g.1 g.2.length ++ g.2.flatMap (itemBytes o)

@[simp] theorem hdrBytes_length (o : ByteOrder) (name : CStr) (n : Nat) :
    (hdrBytes o name n).length = 36 := by
  simp [hdrBytes]

@[simp] theorem SockFilter.bytes_length (o : ByteOrder) (bi : SockFilter) :
    (bi.bytes o).length = 8 := by
  simp [SockFilter.bytes]

@[simp] theorem insns_length (o : ByteOrder) (prog : List SockFilter) :
    (prog.flatMap (SockFilter.bytes o)).length = 8 * prog.length := by
  induction prog with
  | nil => rfl
  | cons bi prog ih => simp [ih]; omega

/-! ## What is written -/

section

variable {e : ByteOrder} {pcapCompile : List UInt8 → Option (List SockFilter)}

theorem word16_ntohs (x : UInt16) : word16 e (ntohs e x) = word16 .big x := by
  cases e with
  | big => rw [ntohs, be16ToCpu, ofWord16_word16]
  | little =>
      have hswap := word16_ofWord16 .big (word16_length .little x)
      have hflip := word16_flip .big (ntohs .little x)
      rw [ntohs, be16ToCpu, hswap] at hflip
      exact hflip.trans (word16_flip .little x).symm

theorem word32_ntohl (x : UInt32) : word32 e (ntohl e x) = word32 .big x := by
  cases e with
  | big => rw [ntohl, be32ToCpu, word32, word32, ofBe32_be32]
  | little =>
      have hswap := word32_ofWord32 .big (word32_length .little x)
      have hflip := word32_flip .big (ntohl .little x)
      rw [ntohl, be32ToCpu, show ofBe32 = ofWord32 .big from rfl, hswap] at hflip
      exact hflip.trans (word32_flip .little x).symm

theorem word32_htonl (x : UInt32) : word32 e (htonl e x) = word32 .big x := by
  rw [htonl, word32_ofWord32 e (be32_length x)]
  rfl

theorem fixInsn_bytes (bi : SockFilter) : (fixInsn e bi).bytes e = (fixReturn bi).bytes .big := by
  simp only [fixInsn, SockFilter.bytes, word16_ntohs, word32_ntohl]

/-- `pfc` prints the same on each host. -/
theorem pfc_eq (name : CStr) (expression : List UInt8) :
    pfc e pcapCompile name expression =
      (pcapCompile expression).map fun prog => itemBytes .big (name, prog.map fixReturn) := by
  unfold pfc
  congr 1
  funext prog
  simp only [itemBytes, hdrBytes, word32_htonl, List.length_map, List.append_assoc,
    List.flatMap_map, fixInsn_bytes]

/-- What an entry compiles to. -/
def compiled? (pcapCompile : List UInt8 → Option (List SockFilter)) (filter : FilterEntry) :
    Option Compiled :=
  match filter.expression? with
  | none => some (filter.name, [])
  | some expression => (pcapCompile expression).map fun prog => (filter.name, prog.map fixReturn)

def compiledGroup? (pcapCompile : List UInt8 → Option (List SockFilter)) (g : FilterConfig) :
    Option (CStr × List Compiled) :=
  (g.group.mapM (compiled? pcapCompile)).map fun items => (g.groupname, items)

theorem genItem_eq (filter : FilterEntry) :
    genItem e pcapCompile filter = (compiled? pcapCompile filter).map (itemBytes .big) := by
  unfold genItem compiled?
  cases filter.expression? with
  | none => simp [itemBytes, packHdr, hdrBytes, word32]
  | some expression =>
      dsimp only
      rw [pfc_eq, Option.map_map]
      rfl

theorem mapM_map {α β γ : Type} {f : α → Option γ} {g : α → Option β} {h : β → γ} {l : List α}
    (hf : ∀ a ∈ l, f a = (g a).map h) : l.mapM f = (l.mapM g).map (List.map h) := by
  induction l with
  | nil => rfl
  | cons a l ih =>
      rw [List.forall_mem_cons] at hf
      rw [List.mapM_cons, List.mapM_cons, hf.1, ih hf.2]
      cases g a with
      | none => rfl
      | some b => cases l.mapM g <;> rfl

theorem length_of_mapM {α β : Type} {f : α → Option β} {l : List α} {l' : List β}
    (h : l.mapM f = some l') : l'.length = l.length := by
  induction l generalizing l' with
  | nil =>
      cases h
      rfl
  | cons a l ih =>
      rw [List.mapM_cons] at h
      simp only [Option.bind_eq_bind, Option.pure_def, Option.bind_eq_some_iff, Option.some.injEq] at h
      obtain ⟨b, -, bs, hbs, rfl⟩ := h
      rw [List.length_cons, List.length_cons, ih hbs]

theorem genGroup_eq (g : FilterConfig) :
    genGroup e pcapCompile g = (compiledGroup? pcapCompile g).map (groupBytes .big) := by
  rw [genGroup, mapM_map fun filter _ => genItem_eq filter, compiledGroup?]
  cases hitems : g.group.mapM (compiled? pcapCompile) with
  | none => rfl
  | some items =>
      simp only [Option.map_some, groupBytes, packHdr, hdrBytes, word32, length_of_mapM hitems,
        List.flatMap]

/-- The file is the format in network order, whatever the host. -/
theorem genFilter_eq (config : List FilterConfig) :
    genFilter e pcapCompile config =
      (config.mapM (compiledGroup? pcapCompile)).map fun groups =>
        packFileHdr config.length ++ groups.flatMap (groupBytes .big) := by
  rw [genFilter, mapM_map fun g _ => genGroup_eq g, Option.map_map]
  rfl

end

/-! ## The check -/

section

variable {e : ByteOrder} {skChkFilter : List SockFilter → Bool} {m : Memory} {p : Int}

theorem strncpy_end {name : CStr} (h : name.strlen ≤ 31) : strncpy name 32 = strncpy name 31 ++ [0] := by
  have hchars : name.chars.length ≤ 31 := h
  rw [strncpy, strncpy, List.take_of_length_le (by omega), List.take_of_length_le hchars,
    List.append_assoc]
  congr 1
  rw [show 32 - name.strlen = 31 - name.strlen + 1 by omega, List.replicate_succ']

theorem write_self {bs : List UInt8} (h : m.Holds p bs) : m.write p bs = m := by
  funext i
  by_cases hin : p ≤ i ∧ i < p + bs.length
  · have hat := congrArg (fun l => l.getD (i - p).toNat 0) h
    simp only [Memory.read, List.getD_eq_getElem?_getD, List.getElem?_map] at hat
    rw [List.getElem?_range (by omega)] at hat
    simp only [Option.map_some, Option.getD_some] at hat
    rw [Memory.write, if_pos hin, List.getD_eq_getElem?_getD, ← hat]
    congr 1
    omega
  · exact Memory.write_outside bs (by omega)

theorem int32_ofNat {n : Nat} (h : n < 2 ^ 31) : int32 (UInt32.ofNat n) = n := by
  have hn : (UInt32.ofNat n).toNat = n := by
    rw [UInt32.toNat_ofNat', Nat.mod_eq_of_lt (by omega)]
  rw [int32, hn, if_pos h]

theorem be16ToCpu_holds {x : UInt16} (h : m.Holds p (word16 .big x)) :
    be16ToCpu e (m.u16 e p) = x := by
  rw [Holds, word16_length] at h
  rw [be16ToCpu, Memory.u16, h, word16_ofWord16 e (word16_length _ _), ofWord16_word16]

theorem be32ToCpu_holds {x : UInt32} (h : m.Holds p (word32 .big x)) :
    be32ToCpu e (m.u32 e p) = x := by
  rw [Holds, word32_length] at h
  rw [be32ToCpu_u32, Memory.be32At, h]
  exact ofBe32_be32 x

/-- A header is turned; its name is left as it is. -/
theorem fixItemHdr_turned {name : CStr} {n : Nat} (hname : name.strlen ≤ 31) (hn : n < 2 ^ 31)
    (h : m.Holds p (hdrBytes .big name n)) :
    ∃ m', fixItemHdr e p m = ((n : Int), m') ∧
      Turned p (hdrBytes .big name n) (hdrBytes e name n) m m' := by
  obtain ⟨hstr, hword⟩ := holds_append.mp h
  rw [strncpy_length] at hword
  have hkept : m.write (p + 31) [0] = m := by
    rw [strncpy_end hname] at hstr
    have hzero := (holds_append.mp hstr).2
    rw [strncpy_length] at hzero
    exact write_self hzero
  have hput := Turned.write (p := p + (strncpy name 32).length) (m := m)
    (a := word32 .big (UInt32.ofNat n)) (b := word32 e (UInt32.ofNat n)) (by simp)
  have hall := (Turned.keep hstr).append hput
  rw [strncpy_length] at hall
  have hcount : be32ToCpu e (m.u32 e (p + 32)) = UInt32.ofNat n := be32ToCpu_holds hword
  refine ⟨m.put32 e (p + 32) (UInt32.ofNat n), ?_, hall⟩
  simp only [fixItemHdr, hkept, hcount, int32_ofNat hn]

/-- An instruction is turned. -/
theorem fixSockFilter_turned {bi : SockFilter} (h : m.Holds p (bi.bytes .big)) :
    Turned p (bi.bytes .big) (bi.bytes e) m (fixSockFilter e p m) := by
  obtain ⟨hcode, hrest⟩ := holds_append.mp h
  obtain ⟨hjumps, hk⟩ := holds_append.mp hrest
  have hfirst : Turned p (word16 .big bi.code) (word16 e bi.code) m (m.put16 e p bi.code) :=
    Turned.write (by simp)
  have hjumps' := hfirst.behind hjumps (by omega)
  have hk' := hfirst.behind hk (by omega)
  have hat : p + (word16 .big bi.code).length + [bi.jt, bi.jf].length = p + 4 := by simp; omega
  rw [hat] at hk'
  have hlast : Turned (p + 4) (word32 .big bi.k) (word32 e bi.k) (m.put16 e p bi.code)
      ((m.put16 e p bi.code).put32 e (p + 4) bi.k) := Turned.write (by simp)
  rw [← hat] at hlast
  have hall := hfirst.append ((Turned.keep hjumps').append hlast)
  rw [hat] at hall
  rw [fixSockFilter, be16ToCpu_holds hcode, be32ToCpu_holds hk']
  exact hall

/-- All instructions of a program are. -/
theorem fixSockFilters_turned {prog : List SockFilter}
    (h : m.Holds p (prog.flatMap (SockFilter.bytes .big))) :
    Turned p (prog.flatMap (SockFilter.bytes .big)) (prog.flatMap (SockFilter.bytes e)) m
      (fixSockFilters e prog.length p m) := by
  induction prog generalizing p m with
  | nil => exact .nil p m
  | cons bi prog ih =>
      rw [List.flatMap_cons] at h
      obtain ⟨hfirst, hrest⟩ := holds_append.mp h
      have hturn := @fixSockFilter_turned e m p bi hfirst
      have hrest' := hturn.behind hrest (by omega)
      have hall := hturn.append (ih hrest')
      rw [SockFilter.bytes_length] at hall
      exact hall

theorem sockFiltersAt_succ (m : Memory) (p : Int) (n : Nat) :
    sockFiltersAt e m p (n + 1) = sockFilterAt e m p :: sockFiltersAt e m (p + 8) n := by
  rw [sockFiltersAt, List.range_succ_eq_map, List.map_cons, List.map_map, sockFiltersAt]
  congr 1
  · simp
  · refine List.map_congr_left fun k _ => ?_
    rw [Function.comp_apply]
    congr 1
    omega

theorem sockFilterAt_holds {bi : SockFilter} (h : m.Holds p (bi.bytes e)) :
    sockFilterAt e m p = bi := by
  obtain ⟨hcode, hrest⟩ := holds_append.mp h
  obtain ⟨hjumps, hk⟩ := holds_append.mp hrest
  rw [word16_length] at hjumps hk
  have hat : p + (2 : Nat) + [bi.jt, bi.jf].length = p + 4 := by simp; omega
  rw [hat] at hk
  have hjt : m (p + 2) = bi.jt ∧ m (p + 3) = bi.jf := by
    simpa [Holds, Memory.read, List.range_succ, Int.add_assoc] using hjumps
  rw [sockFilterAt, hcode.u16, hk.u32, hjt.1, hjt.2]

/-- The program that is there. -/
theorem sockFiltersAt_holds {prog : List SockFilter}
    (h : m.Holds p (prog.flatMap (SockFilter.bytes e))) : sockFiltersAt e m p prog.length = prog := by
  induction prog generalizing p with
  | nil => rfl
  | cons bi prog ih =>
      rw [List.flatMap_cons] at h
      obtain ⟨hfirst, hrest⟩ := holds_append.mp h
      rw [SockFilter.bytes_length] at hrest
      rw [List.length_cons, sockFiltersAt_succ, sockFilterAt_holds hfirst]
      exact congrArg (bi :: ·) (ih hrest)

/-- What the check asks of an item. -/
structure Compiled.Fits (skChkFilter : List SockFilter → Bool) (c : Compiled) : Prop where
  name : c.1.strlen ≤ 31
  length : c.2.length ≤ 1024
  accepted : c.2 ≠ [] → skChkFilter c.2

@[simp] theorem itemBytes_length (c : Compiled) :
    (itemBytes e c).length = 36 + 8 * c.2.length := by
  rw [itemBytes, List.length_append, hdrBytes_length, insns_length]

theorem itemsBytes_length (items : List Compiled) :
    (items.flatMap (itemBytes e)).length = (items.flatMap (itemBytes .big)).length := by
  simp [List.length_flatMap]

@[simp] theorem groupBytes_length (g : CStr × List Compiled) :
    (groupBytes e g).length = 36 + (g.2.flatMap (itemBytes .big)).length := by
  rw [groupBytes, List.length_append, hdrBytes_length, itemsBytes_length]

/-- Each item has a header. -/
theorem items_le (items : List Compiled) :
    36 * items.length ≤ (items.flatMap (itemBytes .big)).length := by
  induction items with
  | nil => simp
  | cons c items ih =>
      rw [List.flatMap_cons, List.length_append, itemBytes_length, List.length_cons]
      omega

theorem checkInsns_turned {prog : List SockFilter} (hlen : prog.length ≤ 1024)
    (haccepted : prog ≠ [] → skChkFilter prog)
    (h : m.Holds p (prog.flatMap (SockFilter.bytes .big))) :
    ∃ m', checkInsns e skChkFilter prog.length p m = some m' ∧
      Turned p (prog.flatMap (SockFilter.bytes .big)) (prog.flatMap (SockFilter.bytes e)) m m' := by
  unfold checkInsns
  rw [if_neg (by omega)]
  by_cases hnil : prog = []
  · subst hnil
    exact ⟨m, rfl, .nil p m⟩
  · have hpos : 0 < prog.length := List.length_pos_iff.mpr hnil
    have hturned := @fixSockFilters_turned e m p prog h
    rw [if_pos (by omega)]
    dsimp only
    rw [Int.toNat_natCast, sockFiltersAt_holds hturned.holds, if_pos (haccepted hnil)]
    exact ⟨_, rfl, hturned⟩

/-- The items of a group are accepted and turned. -/
theorem checkItems_turned (stop : Int) {items : List Compiled} (hfits : ∀ c ∈ items, c.Fits skChkFilter)
    (h : m.Holds p (items.flatMap (itemBytes .big)))
    (hstop : p + (items.flatMap (itemBytes .big)).length ≤ stop) :
    ∃ m', checkItems e skChkFilter stop items.length p m =
        some (p + (items.flatMap (itemBytes .big)).length, m') ∧
      Turned p (items.flatMap (itemBytes .big)) (items.flatMap (itemBytes e)) m m' := by
  induction items generalizing p m with
  | nil => exact ⟨m, by simp [checkItems], .nil p m⟩
  | cons c items ih =>
      rw [List.forall_mem_cons] at hfits
      rw [List.flatMap_cons] at h ⊢
      rw [List.flatMap_cons, List.length_append] at hstop
      obtain ⟨hitem, hrest⟩ := holds_append.mp h
      obtain ⟨hhdr, hprog⟩ := holds_append.mp hitem
      have hlen := hfits.1.length
      rw [itemBytes_length] at hstop
      -- The header, then the instructions, then the other items.
      obtain ⟨m₁, hfix, hturned₁⟩ := fixItemHdr_turned (e := e) hfits.1.name (by omega) hhdr
      obtain ⟨m₂, hcheck, hturned₂⟩ :=
        checkInsns_turned (e := e) hlen hfits.1.accepted (hturned₁.behind hprog (by omega))
      have hturned := hturned₁.append hturned₂
      obtain ⟨m₃, hloop, hturned₃⟩ := ih hfits.2 (hturned.behind hrest (Int.le_refl _)) (by
        rw [itemBytes_length]
        push_cast at hstop ⊢
        omega)
      refine ⟨m₃, ?_, hturned.append hturned₃⟩
      have hbytes : sockFilterBytes (c.2.length : Int) = 8 * c.2.length := by
        rw [sockFilterBytes, wrap32_of_range (by omega) (by omega)]
        omega
      rw [hdrBytes_length] at hcheck
      have hnext : p + ITEM_HDR_SIZE + 8 * (c.2.length : Int) = p + (itemBytes .big c).length := by
        rw [itemBytes_length, ITEM_HDR_SIZE]
        push_cast
        omega
      rw [List.length_cons, checkItems, if_neg (by simp only [ITEM_HDR_SIZE]; omega)]
      simp only [hfix]
      rw [show p + ITEM_HDR_SIZE = p + ((36 : Nat) : Int) from rfl, hcheck]
      dsimp only
      rw [hbytes, show p + ((36 : Nat) : Int) = p + ITEM_HDR_SIZE from rfl, hnext, hloop,
        List.length_append, Int.natCast_add, Int.add_assoc]

theorem checkGroups_succ (stop : Int) (n : Nat) (is data : Int) (mem : Memory) :
    checkGroups e skChkFilter stop (n + 1) is data mem =
      if data + ITEM_HDR_SIZE > stop then none
      else
        (checkItems e skChkFilter stop (fixItemHdr e data mem).1.toNat (data + ITEM_HDR_SIZE)
          (fixItemHdr e data mem).2).bind fun r =>
            checkGroups e skChkFilter stop n (wrap32 (is + (fixItemHdr e data mem).1)) r.1 r.2 := by
  rw [checkGroups]
  split
  · rfl
  · dsimp only
    cases checkItems e skChkFilter stop (fixItemHdr e data mem).1.toNat (data + ITEM_HDR_SIZE)
      (fixItemHdr e data mem).2 <;> rfl

/-- All groups are; the items are counted. -/
theorem checkGroups_turned (stop : Int) (is : Nat) {groups : List (CStr × List Compiled)}
    (hnames : ∀ g ∈ groups, g.1.strlen ≤ 31)
    (hfits : ∀ g ∈ groups, ∀ c ∈ g.2, c.Fits skChkFilter)
    (h : m.Holds p (groups.flatMap (groupBytes .big)))
    (hstop : p + (groups.flatMap (groupBytes .big)).length ≤ stop)
    (hcount : is + (groups.flatMap (groupBytes .big)).length < 2 ^ 31) :
    ∃ m', checkGroups e skChkFilter stop groups.length is p m =
        some (((is + (groups.flatMap (·.2)).length : Nat) : Int), m') ∧
      Turned p (groups.flatMap (groupBytes .big)) (groups.flatMap (groupBytes e)) m m' := by
  induction groups generalizing p m is with
  | nil => exact ⟨m, by simp [checkGroups], .nil p m⟩
  | cons g groups ih =>
      rw [List.forall_mem_cons] at hnames hfits
      rw [List.flatMap_cons] at h ⊢
      rw [List.flatMap_cons, List.length_append, groupBytes_length] at hstop hcount
      obtain ⟨hgroup, hrest⟩ := holds_append.mp h
      obtain ⟨hhdr, hitems⟩ := holds_append.mp hgroup
      have hle := items_le g.2
      obtain ⟨m₁, hfix, hturned₁⟩ := fixItemHdr_turned (e := e) hnames.1 (by omega) hhdr
      have hitems₁ := hturned₁.behind hitems (by omega)
      rw [hdrBytes_length] at hitems₁
      obtain ⟨m₂, hcheck, hturned₂⟩ := checkItems_turned (e := e) stop hfits.1 hitems₁
        (by push_cast at hstop ⊢; omega)
      have hturned := hturned₁.append (by rw [hdrBytes_length]; exact hturned₂)
      obtain ⟨m₃, hloop, hturned₃⟩ := ih (is + g.2.length) hnames.2 hfits.2
        (hturned.behind hrest (Int.le_refl _))
        (by rw [groupBytes_length]; push_cast at hstop ⊢; omega) (by omega)
      refine ⟨m₃, ?_, hturned.append hturned₃⟩
      rw [List.length_cons, checkGroups_succ, if_neg (by simp only [ITEM_HDR_SIZE]; omega), hfix]
      dsimp only
      rw [Int.toNat_natCast, show p + ITEM_HDR_SIZE = p + ((36 : Nat) : Int) from rfl, hcheck,
        Option.bind_some, wrap32_of_range (by omega) (by omega)]
      have hnext : p + ((36 : Nat) : Int) + (g.2.flatMap (itemBytes .big)).length =
          p + (groupBytes .big g).length := by
        rw [groupBytes_length]
        push_cast
        omega
      rw [← Int.natCast_add, hnext]
      refine hloop.trans ?_
      rw [List.length_append, Nat.add_assoc]

/-! ## The walk -/

/-- The item that is installed. -/
def Compiled.item (c : Compiled) : FilterItem := ⟨c.1.chars, c.2.length, c.2⟩

def installedGroup (g : CStr × List Compiled) : FilterGroup :=
  ⟨g.1.chars, g.2.map fun c => (c.item, ⟨0, 0⟩)⟩

theorem nameAt_holds {name : CStr} {n : Nat} (hname : name.strlen ≤ 31)
    (h : m.Holds p (hdrBytes e name n)) : nameAt m p = name.chars := by
  have hstr := (holds_append.mp h).1
  rw [Holds, strncpy_length] at hstr
  have hchars : name.chars.length ≤ 31 := hname
  have hnoNul : ∀ a ∈ name.chars, decide (a ≠ 0) = true := fun a ha => by
    simpa using fun hzero : a = 0 => name.noNul (hzero ▸ ha)
  rw [nameAt, hstr, strncpy, List.take_of_length_le (by omega),
    show 32 - name.strlen = 31 - name.strlen + 1 by omega, List.replicate_succ,
    List.takeWhile_append_of_pos hnoNul,
    List.takeWhile_cons_of_neg (by simp), List.append_nil]

theorem count_holds {name : CStr} {n : Nat} (hn : n < 2 ^ 31) (h : m.Holds p (hdrBytes e name n)) :
    int32 (m.u32 e (p + 32)) = n := by
  have hword := (holds_append.mp h).2
  rw [strncpy_length] at hword
  have hcount : m.u32 e (p + 32) = UInt32.ofNat n := hword.u32
  rw [hcount, int32_ofNat hn]

theorem itemAt_holds {c : Compiled} (hfits : c.Fits skChkFilter) (h : m.Holds p (itemBytes e c)) :
    itemAt e m p = c.item := by
  obtain ⟨hhdr, hprog⟩ := holds_append.mp h
  have hlen := hfits.length
  rw [hdrBytes_length] at hprog
  rw [itemAt, count_holds (by omega) hhdr, nameAt_holds hfits.name hhdr, Int.toNat_natCast,
    show p + ITEM_HDR_SIZE = p + ((36 : Nat) : Int) from rfl, sockFiltersAt_holds hprog]
  rfl

/-- The walk over the items of a group finds each of them, and ends behind. -/
theorem walkItems_holds (cur : Nat) {items : List Compiled} (hfits : ∀ c ∈ items, c.Fits skChkFilter)
    (h : m.Holds p (items.flatMap (itemBytes e))) :
    (walkItems e m items.length p cur).1.map (fun s => itemAt e m s.item) =
        items.map Compiled.item ∧
      (walkItems e m items.length p cur).2 = p + (items.flatMap (itemBytes e)).length := by
  induction items generalizing p cur with
  | nil => simp [walkItems]
  | cons c items ih =>
      rw [List.forall_mem_cons] at hfits
      rw [List.flatMap_cons] at h ⊢
      obtain ⟨hitem, hrest⟩ := holds_append.mp h
      have hlen := hfits.1.length
      have hcount := count_holds (by omega) (holds_append.mp hitem).1
      have hnext : p + ITEM_HDR_SIZE + sockFilterBytes c.2.length = p + (itemBytes e c).length := by
        rw [sockFilterBytes, wrap32_of_range (by omega) (by omega), itemBytes_length, ITEM_HDR_SIZE]
        push_cast
        omega
      obtain ⟨hstores, hend⟩ := ih (cur + 1) hfits.2 hrest
      simp only [List.length_cons, walkItems, hcount, hnext, List.map_cons, hstores, hend,
        itemAt_holds hfits.1 hitem, true_and]
      rw [List.length_append, Int.natCast_add, Int.add_assoc]

/-- The walk over the groups finds what the file has. -/
theorem walkGroups_holds (i cur : Nat) {groups : List (CStr × List Compiled)}
    (hnames : ∀ g ∈ groups, g.1.strlen ≤ 31)
    (hfits : ∀ g ∈ groups, ∀ c ∈ g.2, c.Fits skChkFilter)
    (h : m.Holds p (groups.flatMap (groupBytes e)))
    (hlen : (groups.flatMap (groupBytes e)).length < 2 ^ 31) :
    (walkGroups e m groups.length i p cur).map (groupAt e m) = groups.map installedGroup := by
  induction groups generalizing p i cur with
  | nil => rfl
  | cons g groups ih =>
      rw [List.forall_mem_cons] at hnames hfits
      rw [List.flatMap_cons] at h hlen
      rw [List.length_append, groupBytes_length] at hlen
      obtain ⟨hgroup, hrest⟩ := holds_append.mp h
      obtain ⟨hhdr, hitems⟩ := holds_append.mp hgroup
      have hle := items_le g.2
      have hcount := count_holds (by omega) hhdr
      rw [hdrBytes_length] at hitems
      obtain ⟨hstores, hend⟩ := walkItems_holds cur hfits.1 hitems
      have hnext : p + ((36 : Nat) : Int) + (g.2.flatMap (itemBytes e)).length =
          p + (groupBytes e g).length := by
        rw [groupBytes, List.length_append, hdrBytes_length]
        push_cast
        omega
      rw [← hnext] at hrest
      simp only [List.length_cons, walkGroups, hcount, Int.toNat_natCast,
        show p + ITEM_HDR_SIZE = p + ((36 : Nat) : Int) from rfl, hend, List.map_cons,
        ih _ _ hnames.2 hfits.2 hrest (by omega)]
      congr 1
      rw [groupAt, nameAt_holds hnames.1 hhdr, installedGroup]
      congr 1
      have hpairs := congrArg (List.map fun item => (item, (⟨0, 0⟩ : FilterCounter))) hstores
      rwa [List.map_map, List.map_map] at hpairs

end

/-! ## The round trip -/

/-- The program of an entry; it is empty for a default. -/
def FilterEntry.program (pcapCompile : List UInt8 → Option (List SockFilter))
    (filter : FilterEntry) : List SockFilter :=
  match filter.expression? with
  | none => []
  | some expression => ((pcapCompile expression).getD []).map fixReturn

/-- What is to be installed for a group. -/
def FilterConfig.installed (pcapCompile : List UInt8 → Option (List SockFilter))
    (g : FilterConfig) : FilterGroup where
  name := g.groupname.chars
  items := g.group.map fun filter =>
    (⟨filter.name.chars, (filter.program pcapCompile).length, filter.program pcapCompile⟩, ⟨0, 0⟩)

/-- Each item is a default or a program of 1 to 1024 instructions that
`sk_chk_filter` accepts, and the names fit. -/
structure FilterConfig.Valid (pcapCompile : List UInt8 → Option (List SockFilter))
    (skChkFilter : List SockFilter → Bool) (g : FilterConfig) : Prop where
  groupname : g.groupname.strlen ≤ 31
  name : ∀ filter ∈ g.group, filter.name.strlen ≤ 31
  prog : ∀ filter ∈ g.group, ∀ expression, filter.expression? = some expression →
    ∃ prog, pcapCompile expression = some prog ∧ 1 ≤ prog.length ∧ prog.length ≤ 1024 ∧
      skChkFilter prog

section

variable {e : ByteOrder} {pcapCompile : List UInt8 → Option (List SockFilter)} {k : Kernel}
  {config : List FilterConfig} {mem : Memory}

/-- What a group compiles to. -/
def FilterConfig.compiled (pcapCompile : List UInt8 → Option (List SockFilter))
    (g : FilterConfig) : CStr × List Compiled :=
  (g.groupname, g.group.map fun filter => (filter.name, filter.program pcapCompile))

theorem mapM_eq_map {α β : Type} {f : α → Option β} {g : α → β} {l : List α}
    (h : ∀ a ∈ l, f a = some (g a)) : l.mapM f = some (l.map g) := by
  induction l with
  | nil => rfl
  | cons a l ih =>
      rw [List.forall_mem_cons] at h
      rw [List.mapM_cons, h.1, ih h.2]
      rfl

theorem compiledGroup?_eq {skChkFilter : List SockFilter → Bool} {g : FilterConfig}
    (h : g.Valid pcapCompile skChkFilter) :
    compiledGroup? pcapCompile g = some (g.compiled pcapCompile) := by
  rw [compiledGroup?, mapM_eq_map (g := fun filter => (filter.name, filter.program pcapCompile)),
    Option.map_some]
  · rfl
  · intro filter hmem
    rw [compiled?, FilterEntry.program]
    cases hexpression : filter.expression? with
    | none => rfl
    | some expression =>
        obtain ⟨prog, hprog, -⟩ := h.prog filter hmem expression hexpression
        dsimp only
        rw [hprog]
        rfl

theorem compiled_fits {skChkFilter : List SockFilter → Bool} {g : FilterConfig}
    (h : g.Valid pcapCompile skChkFilter)
    (hret : ∀ prog, skChkFilter prog → skChkFilter (prog.map fixReturn)) :
    ∀ c ∈ (g.compiled pcapCompile).2, c.Fits skChkFilter := by
  intro c hc
  obtain ⟨filter, hmem, rfl⟩ := List.mem_map.mp hc
  cases hexpression : filter.expression? with
  | none =>
      have hnil : filter.program pcapCompile = [] := by rw [FilterEntry.program, hexpression]
      exact ⟨h.name filter hmem, by simp [hnil], fun hne => absurd hnil hne⟩
  | some expression =>
      obtain ⟨prog, hprog, -, hlen, haccepted⟩ := h.prog filter hmem expression hexpression
      have hfixed : filter.program pcapCompile = prog.map fixReturn := by
        rw [FilterEntry.program, hexpression]
        dsimp only
        rw [hprog, Option.getD_some]
      refine ⟨h.name filter hmem, ?_, fun _ => ?_⟩
      · dsimp only
        rwa [hfixed, List.length_map]
      · dsimp only
        rw [hfixed]
        exact hret prog haccepted

@[simp] theorem packFileHdr_length (n : Nat) : (packFileHdr n).length = 8 := by
  simp [packFileHdr, MAGIC]

/-- The header of the file is accepted. -/
theorem packFileHdr_holds {n : Nat} (hn : n ≤ 65535) (h : mem.Holds (-8) (packFileHdr n)) :
    mem.read (-8) 4 = MAGIC ∧ (be16ToCpu e (mem.u16 e (-2))).toNat = n := by
  obtain ⟨hmagic, hrest⟩ := holds_append.mp h
  obtain ⟨-, hgroups⟩ := holds_append.mp hrest
  have hcount : be16ToCpu e (mem.u16 e (-2)) = UInt16.ofNat n := be16ToCpu_holds hgroups
  refine ⟨hmagic, ?_⟩
  rw [hcount, UInt16.toNat_ofNat', Nat.mod_eq_of_lt (by omega)]

/-- The copy has what is below its length. -/
theorem copyData_holds (heap : Memory) {bs : List UInt8} {len : Nat} (h : mem.Holds 0 bs)
    (hlen : bs.length ≤ len) : (copyData mem len heap).Holds 0 bs :=
  h.congr fun i hlo hhi => by rw [copyData, if_pos ⟨hlo, by omega⟩]

theorem setFilter_eq {groups : List (CStr × List Compiled)} {len : Nat}
    (hnames : ∀ g ∈ groups, g.1.strlen ≤ 31)
    (hfits : ∀ g ∈ groups, ∀ c ∈ g.2, c.Fits k.skChkFilter)
    (hgroups : groups.length ≤ 65535) (hitems : groups.flatMap (·.2) ≠ [])
    (hlen : len = (packFileHdr groups.length ++ groups.flatMap (groupBytes .big)).length)
    (hbound : len < 2 ^ 31)
    (hkmalloc : (allocations (len - FILTER_HDR_SIZE) groups.length
      (groups.flatMap (·.2)).length).all k.kmalloc)
    (h : mem.Holds (-8) (packFileHdr groups.length ++ groups.flatMap (groupBytes .big))) :
    setFilter k mem len = .ok ⟨groups.map installedGroup⟩ := by
  obtain ⟨hhdr, hbody⟩ := holds_append.mp h
  rw [packFileHdr_length, show (-8 : Int) + ((8 : Nat) : Int) = 0 from rfl] at hbody
  rw [List.length_append, packFileHdr_length] at hlen
  obtain ⟨hmagic, hcount⟩ := packFileHdr_holds (e := k.order) hgroups hhdr
  have hdatalen : len - FILTER_HDR_SIZE = (groups.flatMap (groupBytes .big)).length := by
    rw [FILTER_HDR_SIZE, hlen, Nat.add_sub_cancel_left]
  rw [hdatalen] at hkmalloc
  obtain ⟨mem', hcheck, hturned⟩ := checkGroups_turned (e := k.order)
    (groups.flatMap (groupBytes .big)).length 0 hnames hfits hbody (by omega) (by omega)
  rw [Int.natCast_zero, Nat.zero_add] at hcheck
  have hpos : (groups.flatMap (·.2)).length ≠ 0 := fun hzero =>
    hitems (List.eq_nil_of_length_eq_zero hzero)
  have hcopy := copyData_holds k.heap hturned.holds (Nat.le_of_eq hturned.length)
  have hwalk := walkGroups_holds 0 0 hnames hfits hcopy (by rw [hturned.length]; omega)
  rw [setFilter, if_neg (by rw [FILTER_HDR_SIZE]; omega), if_neg (by rw [hmagic]; simp)]
  simp only [hcount, hdatalen, checkFilter, hcheck, Option.getD_some]
  rw [if_neg (by omega), if_pos hkmalloc, hwalk]

/-- A filter file is installed as what it was made from, whatever the byte
orders of the host and of the device. That `sk_chk_filter` does not look at
the constant of a return is `hret`; `len` is an `int`. -/
theorem genFilter_installed (hgroups : config.length ≤ 65535)
    (hitems : config.flatMap (·.group) ≠ [])
    (hvalid : ∀ g ∈ config, g.Valid pcapCompile k.skChkFilter)
    (hret : ∀ prog, k.skChkFilter prog → k.skChkFilter (prog.map fixReturn)) :
    ∃ file, genFilter e pcapCompile config = some file ∧
      (file.length < 2 ^ 31 →
        (allocations (file.length - FILTER_HDR_SIZE) config.length
          (config.flatMap (·.group)).length).all k.kmalloc →
        ∀ mem : Memory, mem.Holds (-8) file →
          setFilter k mem file.length = .ok ⟨config.map (·.installed pcapCompile)⟩) := by
  have hgroups? : config.mapM (compiledGroup? pcapCompile) =
      some (config.map (·.compiled pcapCompile)) :=
    mapM_eq_map fun g hg => compiledGroup?_eq (hvalid g hg)
  have hcount : ((config.map (·.compiled pcapCompile)).flatMap (·.2)).length =
      (config.flatMap (·.group)).length := by
    simp [List.length_flatMap, List.flatMap_map, FilterConfig.compiled]
  have hinstalled : (config.map (·.compiled pcapCompile)).map installedGroup =
      config.map (·.installed pcapCompile) := by
    simp [installedGroup, FilterConfig.compiled, FilterConfig.installed, Compiled.item]
  refine ⟨_, by rw [genFilter_eq, hgroups?, Option.map_some], fun hlen hkmalloc mem h => ?_⟩
  have hlength : (config.map (·.compiled pcapCompile)).length = config.length := List.length_map _
  rw [← hlength] at h hgroups
  rw [← hinstalled]
  refine setFilter_eq (List.forall_mem_map.mpr fun g hg => (hvalid g hg).groupname)
    (List.forall_mem_map.mpr fun g hg => compiled_fits (hvalid g hg) hret) hgroups ?_ ?_ hlen ?_ h
  · rwa [← List.length_pos_iff, hcount, List.length_pos_iff]
  · rw [List.length_map]
  · rwa [hcount, List.length_map]

end

/-- `"snr"` with `"low"`, a program that returns 96, and the default
`"high"`. -/
def snr : FilterConfig where
  groupname := ⟨[0x73, 0x6e, 0x72], by decide⟩
  group := [⟨⟨[0x6c, 0x6f, 0x77], by decide⟩, some [0x31]⟩, ⟨⟨[0x68, 0x69], by decide⟩, none⟩]

def returns96 : List SockFilter := [⟨0x30, 0, 0, 10⟩, ⟨0x06, 0, 0, 96⟩]

/-- Byte loads, and a return as the last instruction. -/
def loadsOnly (prog : List SockFilter) : Bool :=
  prog.all (fun bi => bi.code == 0x30 || bi.code == 0x06) &&
    (prog.getLast?.map (·.code)).any (· == 0x06)

def bigEndianKernel : Kernel := ⟨.big, loadsOnly, fun _ => true, fun _ => 0⟩

@[simp] theorem fixReturn_code (bi : SockFilter) : (fixReturn bi).code = bi.code := by
  unfold fixReturn
  split <;> rfl

theorem snr_installed :
    ∃ file, genFilter .little (fun _ => some returns96) [snr] = some file ∧
      setFilter bigEndianKernel (Memory.write (fun _ => 0) (-8) file) file.length =
        .ok ⟨[⟨[0x73, 0x6e, 0x72],
          [(⟨[0x6c, 0x6f, 0x77], 2, [⟨0x30, 0, 0, 10⟩, ⟨0x06, 0, 0, 65535⟩]⟩, ⟨0, 0⟩),
            (⟨[0x68, 0x69], 0, []⟩, ⟨0, 0⟩)]⟩]⟩ := by
  have hvalid : ∀ g ∈ [snr], g.Valid (fun _ => some returns96) bigEndianKernel.skChkFilter := by
    rw [List.forall_mem_singleton]
    exact ⟨by decide, by decide, fun _ _ _ _ => ⟨returns96, rfl, by decide, by decide, by decide⟩⟩
  obtain ⟨file, hfile, hset⟩ := genFilter_installed (e := .little) (k := bigEndianKernel)
    (by decide) (by decide) hvalid fun prog h => by
      simpa [bigEndianKernel, loadsOnly, Function.comp_def] using h
  have hlen : (genFilter .little (fun _ => some returns96) [snr]).map List.length = some 132 := by
    decide +kernel
  rw [hfile, Option.map_some, Option.some.injEq] at hlen
  refine ⟨file, hfile, (hset (by omega) (by simp [bigEndianKernel]) _ (holds_write _ _ _)).trans ?_⟩
  decide +kernel

end UbntSdk.Wprobe
