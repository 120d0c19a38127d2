/-
UbntSdk.Wprobe.FilterFile — filter files for the wireless probe
(`package/wprobe/src/filter`): `gen_filter.pl` and `pfc.c`.

`gen_filter.pl` prints the headers of the file and of the groups, and the
header of an item without a filter; for an item with a filter it copies what
`pfc` prints, which has its header and its instructions. The groups come in
the order in which `keys` gives them. `pcap_compile` is a parameter; `none` is
an expression that it refuses, where `gen_filter.pl` dies.

Names are given to `pfc` as arguments of a command, so they have no NUL.
-/
import UbntSdk.Wprobe.Filter
import UbntSdk.Lib.Words

namespace UbntSdk.Wprobe

open UbntSdk.Lib

/-! ## pfc.c -/

def BPF_RET : UInt16 := 0x06
def BPF_K : UInt16 := 0x00

/-- `BPF_CLASS`. -/
def bpfClass (code : UInt16) : UInt16 := code &&& 0x07

/-- `BPF_MODE`. -/
def bpfMode (code : UInt16) : UInt16 := code &&& 0xe0

/-- The constant of a return. -/
def fixReturn (bi : SockFilter) : SockFilter :=
  if bpfClass bi.code = BPF_RET ∧ bpfMode bi.code = BPF_K ∧ bi.k ≠ 0 then { bi with k := 65535 }
  else bi

/-- `ntohs`. -/
def ntohs (e : ByteOrder) (x : UInt16) : UInt16 := be16ToCpu e x

/-- `ntohl`. -/
def ntohl (e : ByteOrder) (x : UInt32) : UInt32 := be32ToCpu e x

/-- `htonl`. -/
def htonl (e : ByteOrder) (x : UInt32) : UInt32 := ofWord32 e (be32 x)

/-- The body of the loop over the instructions. -/
def fixInsn (e : ByteOrder) (bi : SockFilter) : SockFilter :=
  let bi := fixReturn bi
  { bi with code := ntohs e bi.code, k := ntohl e bi.k }

/-- `struct bpf_insn` in memory. -/
def SockFilter.bytes (e : ByteOrder) (bi : SockFilter) : List UInt8 :=
  word16 e bi.code ++ ([bi.jt, bi.jf] ++ word32 e bi.k)

/-- What `pfc` prints on a host: `struct wprobe_filter_hdr` and the
instructions. -/
def pfc (e : ByteOrder) (pcapCompile : List UInt8 → Option (List SockFilter)) (name : CStr)
    (expression : List UInt8) : Option (List UInt8) :=
  (pcapCompile expression).map fun insns =>
    strncpy name 32 ++ (word32 e (htonl e (UInt32.ofNat insns.length)) ++
      (insns.map (fixInsn e)).flatMap (SockFilter.bytes e))

/-! ## gen_filter.pl -/

/-- A pair of a name and an expression, which may be undefined. -/
structure FilterEntry where
  name : CStr
  expression : Option (List UInt8)
  deriving DecidableEq

/-- A key of `$config` and what is there. -/
structure FilterConfig where
  groupname : CStr
  group : List FilterEntry
  deriving DecidableEq

/-- The expression, unless Perl takes it for false. -/
def FilterEntry.expression? (filter : FilterEntry) : Option (List UInt8) :=
  filter.expression.filter fun s => s ≠ [] && s ≠ [0x30]

def FILE_VERSION : UInt8 := 1
def FILE_HDRLEN : UInt8 := 3

/-- `pack("a4CCn", ...)`. -/
def packFileHdr (groups : Nat) : List UInt8 :=
  MAGIC ++ ([FILE_VERSION, FILE_HDRLEN] ++ word16 .big (UInt16.ofNat groups))

/-- `pack("a32N", ...)`. -/
def packHdr (name : CStr) (n : Nat) : List UInt8 := strncpy name 32 ++ be32 (UInt32.ofNat n)

/-- The body of the loop over a group. -/
def genItem (e : ByteOrder) (pcapCompile : List UInt8 → Option (List SockFilter))
    (filter : FilterEntry) : Option (List UInt8) :=
  match filter.expression? with
  | none => some (packHdr filter.name 0)
  | some expression => pfc e pcapCompile filter.name expression

/-- The body of the loop over the groups. -/
def genGroup (e : ByteOrder) (pcapCompile : List UInt8 → Option (List SockFilter))
    (g : FilterConfig) : Option (List UInt8) :=
  (g.group.mapM (genItem e pcapCompile)).map fun items =>
    packHdr g.groupname g.group.length ++ items.flatten

/-- The file that `gen_filter.pl` writes. -/
def genFilter (e : ByteOrder) (pcapCompile : List UInt8 → Option (List SockFilter))
    (config : List FilterConfig) : Option (List UInt8) :=
  (config.mapM (genGroup e pcapCompile)).map fun groups =>
    packFileHdr config.length ++ groups.flatten

end UbntSdk.Wprobe
