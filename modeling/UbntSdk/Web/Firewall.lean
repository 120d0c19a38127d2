/-
UbntSdk.Web.Firewall — rules of the firewall page
(`package/ubnt-web/src/firewall.js`).

A rule is kept as the text of a command. Texts are lists of characters, and the
protocol 0 of a fresh rule is the text `0`, which compares like it.
-/
import UbntSdk.Web.Validate

namespace UbntSdk.Web

open UbntSdk.Lib.Js

/-! ## Fields -/

/-- The text up to a character, and from behind it. -/
def splitAt (c : Char) (s : List Char) : List Char × List Char :=
  (s.takeWhile (· ≠ c), (s.dropWhile (· ≠ c)).drop 1)

/-- `0.0.0.0/0`. -/
def anyIP : List Char := zeroIP ++ ['/', '0']

def validateIp (value : List Char) : Bool :=
  let value := trim value
  if value = [] ∨ value = anyIP then true
  else if '/' ∈ value then
    let (value, mask) := splitAt '/' value
    if isNaN mask || !(Lib.Js.parseInt mask).eq (toNumber mask) || (Lib.Js.parseInt mask).lt 0 ||
        Number.lt 32 (Lib.Js.parseInt mask) then false
    else validateIP value
  else validateIP value

def validatePort (value : List Char) : Bool :=
  let value := trim value
  if value = [] then true
  else if ':' ∈ value then
    let (fromText, toText) := splitAt ':' value
    if isNaN fromText || isNaN toText then false
    else
      let intfrom := Lib.Js.parseInt fromText
      let intto := Lib.Js.parseInt toText
      !(!intfrom.eq (toNumber fromText) || !intto.eq (toNumber toText) || intfrom.lt 1 ||
        Number.lt 65535 intfrom || intto.lt 1 || Number.lt 65535 intto || Number.lt intto intfrom)
  else
    !(isNaN value || !(Lib.Js.parseInt value).eq (toNumber value) || (Lib.Js.parseInt value).lt 1 ||
      Number.lt 65535 (Lib.Js.parseInt value))

/-! ## Rules -/

/-- The fields of `iptablesObj` and `ebtablesObj` that a command holds. The VLAN
is `undefined` in a fresh rule. -/
structure FwRule where
  table : List Char
  chain : List Char
  proto : List Char
  devname : List Char
  ipProto : List Char
  src : List Char
  sport : List Char
  dst : List Char
  dport : List Char
  vlan : Option (List Char)
  target : List Char
  srcInv : Bool
  sportInv : Bool
  dstInv : Bool
  dportInv : Bool
  deriving DecidableEq

/-- A fresh rule. -/
def FwRule.fresh : FwRule where
  table := []
  chain := []
  proto := []
  devname := []
  ipProto := ['0']
  src := []
  sport := []
  dst := []
  dport := []
  vlan := none
  target := []
  srcInv := false
  sportInv := false
  dstInv := false
  dportInv := false

/-- `validateRule`: the errors. -/
def validateRule (rule : FwRule) : List String :=
  (if validateIp rule.src then [] else ["Source IP/Mask is invalid."]) ++
    (if validateIp rule.dst then [] else ["Destination IP/Mask is invalid."]) ++
      (if validatePort rule.sport then [] else ["Source port is invalid."]) ++
        (if validatePort rule.dport then [] else ["Destination port is invalid."])

/-- `_ipProto != 0`. -/
def FwRule.hasIpProto (rule : FwRule) : Bool := !(toNumber rule.ipProto).eq 0

/-! ## Reading a command -/

/-- The options of the commands. -/
inductive Key where
  | t | A | p | i | m | protocol | ipProtocol | src | ipSrc | sport | ipSport | dst | ipDst
  | dport | ipDport | vlanId | j
  deriving DecidableEq

namespace Key

def text : Key → List Char
  | t => ['-', 't']
  | A => ['-', 'A']
  | p => ['-', 'p']
  | i => ['-', 'i']
  | m => ['-', 'm']
  | protocol => ['-', '-', 'p', 'r', 'o', 't', 'o', 'c', 'o', 'l']
  | ipProtocol => ['-', '-', 'i', 'p', '-', 'p', 'r', 'o', 't', 'o', 'c', 'o', 'l']
  | src => ['-', '-', 's', 'r', 'c']
  | ipSrc => ['-', '-', 'i', 'p', '-', 's', 'r', 'c']
  | sport => ['-', '-', 's', 'p', 'o', 'r', 't']
  | ipSport => ['-', '-', 'i', 'p', '-', 's', 'p', 'o', 'r', 't']
  | dst => ['-', '-', 'd', 's', 't']
  | ipDst => ['-', '-', 'i', 'p', '-', 'd', 's', 't']
  | dport => ['-', '-', 'd', 'p', 'o', 'r', 't']
  | ipDport => ['-', '-', 'i', 'p', '-', 'd', 'p', 'o', 'r', 't']
  | vlanId => ['-', '-', 'v', 'l', 'a', 'n', '-', 'i', 'd']
  | j => ['-', 'j']

def all : List Key :=
  [t, A, p, i, m, protocol, ipProtocol, src, ipSrc, sport, ipSport, dst, ipDst, dport, ipDport,
    vlanId, j]

/-- The `case` of a parameter. -/
def ofParam (param : List Char) : Option Key := all.find? fun key => key.text = param

/-- The options that a `!` can follow. -/
def invertible : Key → Bool
  | src | ipSrc | sport | ipSport | dst | ipDst | dport | ipDport => true
  | _ => false

def invert (rule : FwRule) : Key → FwRule
  | src | ipSrc => { rule with srcInv := true }
  | sport | ipSport => { rule with sportInv := true }
  | dst | ipDst => { rule with dstInv := true }
  | dport | ipDport => { rule with dportInv := true }
  | _ => rule

def ipp2p : List Char := ['i', 'p', 'p', '2', 'p']

def p2p : List Char := ['p', '2', 'p']

def set (rule : FwRule) (value : List Char) : Key → FwRule
  | t => { rule with table := value }
  | A => { rule with chain := value }
  | p => { rule with proto := value }
  | i => { rule with devname := value }
  | m => if value = ipp2p then { rule with ipProto := p2p } else rule
  | protocol | ipProtocol => { rule with ipProto := value }
  | src | ipSrc => { rule with src := value }
  | sport | ipSport => { rule with sport := value }
  | dst | ipDst => { rule with dst := value }
  | dport | ipDport => { rule with dport := value }
  | vlanId => { rule with vlan := some value }
  | j => { rule with target := value }

end Key

/-- The loop over the parameters. -/
def readParams (rule : FwRule) : List (List Char) → FwRule
  | param :: value :: params =>
      match Key.ofParam param with
      | none => readParams rule (value :: params)
      | some key =>
          if key.invertible ∧ value = ['!'] then
            match params with
            | [] => key.set rule value
            | value :: params => readParams (key.set (key.invert rule) value) params
          else readParams (key.set rule value) params
  | _ => rule

/-- `$.grep(cmd.split(' '), function(p) { return p.length })`. -/
def paramsOf (cmd : List Char) : List (List Char) := (cmd.splitOn ' ').filter (· ≠ [])

/-- `initRule` of a rule with this command, if it has one. -/
def initRule (rule : FwRule) (cmd : List Char) : Option FwRule :=
  if trim cmd = [] then none else some (readParams rule (paramsOf cmd))

/-! ## Building a command -/

/-- An option with its value. -/
def arg (key : Key) (value : List Char) : List Char := key.text ++ ' ' :: value

/-- An option with its value, which may be inverted. -/
def invArg (key : Key) (inv : Bool) (value : List Char) : List Char :=
  arg key ((if inv then ['!', ' '] else []) ++ value)

def DROP : List Char := ['D', 'R', 'O', 'P']

/-- `-m ipp2p --ipp2p`. -/
def ipp2pArgs : List Char := arg .m (Key.ipp2p ++ ' ' :: ['-', '-', 'i', 'p', 'p', '2', 'p'])

/-- What both commands begin with. -/
def headArgs (rule : FwRule) : List (List Char) :=
  (if rule.table ≠ [] then [arg .t rule.table] else []) ++ [arg .A rule.chain] ++
    (if rule.devname ≠ [] then [arg .i rule.devname] else [])

/-- The address and the port of one end. -/
def endArgs (rule : FwRule) (addrKey portKey : Key) (addr port : List Char)
    (addrInv portInv : Bool) :
    List (List Char) :=
  (if addr ≠ [] then [invArg addrKey addrInv addr] else []) ++
    (if rule.hasIpProto ∧ port ≠ [] then [invArg portKey portInv port] else [])

def targetArg (rule : FwRule) : List Char := arg .j (if rule.target ≠ [] then rule.target else DROP)

def buildIpCmd (rule : FwRule) : List Char :=
  [' '].intercalate <| headArgs rule ++
    (if rule.hasIpProto then
      [if rule.ipProto = Key.p2p then ipp2pArgs else arg .protocol rule.ipProto] else []) ++
    endArgs rule .src .sport rule.src rule.sport rule.srcInv rule.sportInv ++
    endArgs rule .dst .dport rule.dst rule.dport rule.dstInv rule.dportInv ++ [targetArg rule]

/-- `0x0800`. -/
def protoIP : List Char := ['0', 'x', '0', '8', '0', '0']

/-- `0x8100`. -/
def protoVLAN : List Char := ['0', 'x', '8', '1', '0', '0']

/-- What `buildEbCmd` adds for the protocol; the length of a VLAN that is
`undefined` is an error. -/
def protoArgs (rule : FwRule) : Option (List (List Char)) :=
  if rule.proto = protoIP then
    some ((if rule.hasIpProto then [arg .ipProtocol rule.ipProto] else []) ++
      endArgs rule .ipSrc .ipSport rule.src rule.sport rule.srcInv rule.sportInv ++
      endArgs rule .ipDst .ipDport rule.dst rule.dport rule.dstInv rule.dportInv)
  else if rule.proto = protoVLAN then
    rule.vlan.map fun vlan => if vlan ≠ [] then [arg .vlanId vlan] else []
  else some []

def buildEbCmd (rule : FwRule) : Option (List Char) :=
  (protoArgs rule).map fun args =>
    [' '].intercalate <| headArgs rule ++ [arg .p rule.proto] ++ args ++ [targetArg rule]

/-! ## New rules -/

/-- What the form holds. -/
structure FwForm where
  devname : List Char
  proto : List Char
  ipProto : List Char
  src : List Char
  sport : List Char
  dst : List Char
  dport : List Char
  srcInv : Bool
  sportInv : Bool
  dstInv : Bool
  dportInv : Bool
  target : List Char

/-- `createRule`, less the comment, the status and the command. -/
def createRule (form : FwForm) : FwRule :=
  let hasIpProto := !(toNumber form.ipProto).eq 0
  { FwRule.fresh with
    chain := ['F', 'I', 'R', 'E', 'W', 'A', 'L', 'L']
    proto := form.proto
    devname := form.devname
    ipProto := form.ipProto
    src := form.src
    sport := if hasIpProto then form.sport else []
    dst := form.dst
    dport := if hasIpProto then form.dport else []
    target := form.target
    srcInv := form.src ≠ [] && form.srcInv
    sportInv := hasIpProto && form.sport ≠ [] && form.sportInv
    dstInv := form.dst ≠ [] && form.dstInv
    dportInv := hasIpProto && form.dport ≠ [] && form.dportInv }

end UbntSdk.Web
