/-
UbntSdk.Web.Config — the configuration object of the web interface
(`package/ubnt-web/src/ubnt.cfg.js`).

A configuration is a tree of objects. A section `a.b.` of the text is an object
in the property `b` of `a`, and a numbered section `a.2.` is an element of the
array `objs` of `a`. New objects are deep copies of a prototype, with one
exception: the property `except` of a `dmzObj` is extended in place, so its
`objs` is the array of the prototype itself, the same one for all of them and
for all texts that are parsed (`Kind.except`; the array is `excepts` below).

* A text is a list of characters. The order of properties is not modelled: they
  are kept sorted.
* Methods are left out, as nothing prints them; names of methods are not names
  of sections here. Of the methods that `parse` and `toCfg` call, `init` and
  `serialize` are parameters as far as they look into the objects (`Hooks`).
* `none` is an exception: the array of the exceptions can be made to contain
  itself, and then copying, `callInit` and `toCfg` do not come to an end.
-/
import Mathlib.Algebra.Order.Ring.Int
import Mathlib.Data.List.Lex
import Mathlib.Logic.Function.Iterate
import Mathlib.Order.Basic

namespace UbntSdk.Web

abbrev Str := List Char

theorem lawfulBEq_str : LawfulBEq Str := inferInstance

scoped instance (s : Str) (l : List Str) : Decidable (s ∈ l) :=
  @List.instDecidableMemOfLawfulBEq _ _ lawfulBEq_str s l

/-! ## Objects -/

/-- Where a value is in an object: in a property, or in `objs[n - 1]`. -/
inductive Seg where
  | name (s : Str)
  | idx (n : Nat)
  deriving DecidableEq, Repr

/-- Sections whose `init` keeps some of the numbered objects. -/
inductive Listed where
  | alias | vlan | route | iptables | ebtables | blacklist | macAcl
  deriving DecidableEq, Repr

/-- Objects that print themselves. -/
inductive Rule where
  | iptables | ebtables
  deriving DecidableEq, Repr

/-- What is special about an object. -/
inductive Kind where
  | plain
  /-- `objs` is the array of the prototype `except`. -/
  | except
  | listed (l : Listed)
  | shaper
  | rule (r : Rule)
  deriving DecidableEq, Repr

/-- The properties of an object: strings and objects. The property `val` of an
object is kept with it; it is empty when there is none, as `toCfg` does not
distinguish the two. -/
inductive Props where
  | nil
  | str (seg : Seg) (value : Str) (rest : Props)
  | obj (seg : Seg) (val : Str) (kind : Kind) (kids rest : Props)
  deriving DecidableEq, Repr

structure Obj where
  val : Str
  kind : Kind
  kids : Props
  deriving DecidableEq, Repr

inductive Value where
  | str (s : Str)
  | obj (o : Obj)
  deriving DecidableEq, Repr

/-- Names come before numbers. -/
def Seg.code : Seg → List Nat
  | .name s => 0 :: s.map Char.toNat
  | .idx n => [1, n]

theorem Seg.code_injective : Function.Injective Seg.code := by
  intro a b h
  cases a with
  | name s =>
      cases b with
      | name t =>
          have hmap := (List.cons.inj h).2
          rw [(List.map_injective_iff.mpr (fun _ _ hc => Char.toNat_inj.mp hc)) hmap]
      | idx n => exact absurd (List.cons.inj h).1 (by decide)
  | idx n =>
      cases b with
      | name t => exact absurd (List.cons.inj h).1 (by decide)
      | idx m => rw [(List.cons.inj (List.cons.inj h).2).1]

instance : LinearOrder Seg := LinearOrder.lift' Seg.code Seg.code_injective

def Props.cons (seg : Seg) (value : Value) (rest : Props) : Props :=
  match value with
  | .str s => .str seg s rest
  | .obj o => .obj seg o.val o.kind o.kids rest

def Props.find (a : Seg) : Props → Option Value
  | .nil => none
  | .str seg s rest => if a = seg then some (.str s) else rest.find a
  | .obj seg val kind kids rest => if a = seg then some (.obj ⟨val, kind, kids⟩) else rest.find a

/-- Replaces a value, or adds it at its place. -/
def Props.put (a : Seg) (x : Value) : Props → Props
  | .nil => .cons a x .nil
  | .str seg s rest =>
      if a = seg then .cons a x rest
      else if a < seg ∧ rest.find a = none then .cons a x (.str seg s rest)
      else .str seg s (rest.put a x)
  | .obj seg val kind kids rest =>
      if a = seg then .cons a x rest
      else if a < seg ∧ rest.find a = none then .cons a x (.obj seg val kind kids rest)
      else .obj seg val kind kids (rest.put a x)

def Obj.put (o : Obj) (a : Seg) (x : Value) : Obj := { o with kids := o.kids.put a x }

/-- The object at `a`, if there is one. -/
def Obj.sub (o : Obj) (a : Seg) : Option Obj :=
  match o.kids.find a with
  | some (.obj c) => some c
  | _ => none

/-! ## Prototypes -/

def Props.strs (l : List (String × String)) : Props :=
  l.foldl (fun p x => p.put (.name x.1.toList) (.str x.2.toList)) .nil

def Props.with (p : Props) (name : String) (o : Obj) : Props := p.put (.name name.toList) (.obj o)

def Obj.ofProps (p : Props) : Obj := ⟨[], .plain, p⟩

def Obj.ofKind (kind : Kind) (p : Props) : Obj := ⟨[], kind, p⟩

/-- `cfg.objPrototypes`, and what `createNewObj` adds to the nested objects.
Only `except` is missing, which changes. -/
def objPrototypes : List (String × Obj) := [
  ("netconf", .ofProps (.strs [("status", "disabled")])),
  ("netconfObj", .ofProps ((((Props.strs [("status", "enabled"), ("devname", ""), ("mtu", "1500"),
      ("role", "")]).with "autoip" (.ofProps (.strs [("status", "disabled")]))).with
      "alias" (.ofKind (.listed .alias) .nil)).with
      "hwaddr" (.ofProps (.strs [("status", "disabled"), ("mac", "")])))),
  ("aliasObj", .ofProps (.strs [("status", "disabled"), ("ip", ""), ("netmask", ""), ("comment", "")])),
  ("bridge", .ofProps (.strs [("status", "disabled")])),
  ("bridgeObj", .ofProps (((Props.strs [("status", "enabled"), ("devname", "")]).with
      "stp" (.ofProps (.strs [("status", "disabled")]))).with "port" (.ofProps .nil))),
  ("portObj", .ofProps (.strs [("status", "enabled"), ("devname", "")])),
  ("vlan", .ofKind (.listed .vlan) (.strs [("status", "disabled")])),
  ("vlanObj", .ofProps (.strs [("status", "enabled"), ("devname", ""), ("id", ""), ("comment", "")])),
  ("route", .ofKind (.listed .route) (.strs [("status", "disabled")])),
  ("routeObj", .ofProps (.strs [("ip", ""), ("netmask", ""), ("gateway", ""), ("comment", ""),
      ("status", "enabled")])),
  ("resolv", .ofProps (.strs [("status", "disabled")])),
  ("nameserverObj", .ofProps (.strs [("ip", ""), ("status", "enabled")])),
  ("iptables", .ofKind (.listed .iptables) (.strs [("status", "disabled")])),
  ("iptablesObj", .ofKind (.rule .iptables)
      (.strs [("status", "disabled"), ("cmd", ""), ("comment", "")])),
  ("ebtables", .ofKind (.listed .ebtables) (.strs [("status", "disabled")])),
  ("ebtablesObj", .ofKind (.rule .ebtables)
      (.strs [("status", "disabled"), ("cmd", ""), ("comment", "")])),
  ("dhcpc", .ofProps (.strs [("status", "disabled")])),
  ("ppp", .ofProps (.strs [("status", "disabled")])),
  ("masq", .ofProps (.strs [("status", "disabled")])),
  ("dhcpd", .ofProps (.strs [("status", "disabled")])),
  ("dhcpdObj", .ofProps ((Props.strs [("status", "enabled")]).with "dns" (.ofProps
      ((Props.nil.put (.idx 1) (.obj (.ofProps (.strs [("server", "")])))).put (.idx 2)
        (.obj (.ofProps (.strs [("server", "")]))))))),
  ("blacklist", .ofKind (.listed .blacklist) .nil),
  ("dmzObj", .ofProps (Props.nil.with "except" (.ofKind .except .nil))),
  ("igmpproxy", .ofProps (Props.nil.with "upstream" (.ofProps .nil))),
  ("tshaper", .ofProps (.strs [("status", "disabled")])),
  ("tshaperObj", .ofKind .shaper (((Props.strs [("status", "enabled")]).with
      "input" (.ofProps (.strs [("status", "enabled")]))).with
      "output" (.ofProps (.strs [("status", "enabled")])))),
  ("mac_acl", .ofKind (.listed .macAcl) (.strs [("status", "disabled")])),
  ("mac_aclObj", .ofProps (.strs [("status", "enabled"), ("mac", ""), ("comment", "")])),
  ("upnpd", .ofProps ((Props.strs [("status", "enabled"), ("devname", "")]).with
      "listening" (.ofProps .nil))),
  ("3gObj", .ofProps ((Props.strs [("status", "enabled")]).with
      "pin" (.ofProps (.strs [("status", "disabled"), ("code", ""), ("iccid", "")]))))]

def lookupPrototype (name : Str) : List (String × Obj) → Obj
  | [] => .ofProps .nil
  | (n, o) :: l => if name = n.toList then o else lookupPrototype name l

/-- The objects that do not depend on what was parsed before. -/
def prototype (name : Str) : Obj := lookupPrototype name objPrototypes

/-- Whether the array of the exceptions is in here. -/
def Props.sharing : Props → Bool
  | .nil => false
  | .str _ _ rest => rest.sharing
  | .obj _ _ kind kids rest => kind = .except || kids.sharing || rest.sharing

/-- `createNewObj`. The prototype `except` is copied with the exceptions that
were added to it so far. -/
def createNewObj (excepts : Props) (name : Str) : Option Obj :=
  if name = "except".toList then
    if excepts.sharing then none else some (.ofProps excepts)
  else some (prototype name)

/-! ## `get` and `set` -/

/-- `/^[0-9]+$/`. -/
def numeric (s : Str) : Bool := !s.isEmpty && s.all Char.isDigit

def parseInt (s : Str) : Nat := Nat.ofDigitChars 10 s 0

/-- Where a section is: the sections around it, and the property that is set. -/
def pathOf : List Str → List Seg
  | [] => []
  | [p] => [.name p]
  | k :: l :: rest => (if numeric k then .idx (parseInt k) else .name k) :: pathOf (l :: rest)

/-- The path of a key. -/
def path (key : Str) : List Seg := pathOf (key.splitOn '.')

/-- The text of a section in a key. -/
def Seg.text : Seg → Str
  | .name s => s
  | .idx n => Nat.toDigits 10 n

/-- The prototype of the section `a` in the section `pre`. -/
def protoName (pre a : Seg) : Str :=
  match a with
  | .name s => s
  | .idx _ => pre.text ++ "Obj".toList

/-- The last step of `set`: an object is not replaced with the value. -/
def Obj.setProp (o : Obj) (a : Seg) (value : Str) : Obj :=
  match o.sub a with
  | some c => o.put a (.obj { c with val := value })
  | none => o.put a (.str value)

/-- Whether the section `a` of an object is one of the exceptions. -/
def Kind.excepted (kind : Kind) : Seg → Bool
  | .name _ => false
  | .idx _ => kind = .except

/-- `get` and `set` from the object `o` in the section `pre` on. The array of
the exceptions is not in `o`: what is left of a path that leads there is
returned. `view` is what the array holds, in terms of `o`. -/
def assign (view : Obj → Props) (pre : Seg) :
    List Seg → Str → Obj → Option (Obj × Option (List Seg))
  | [], _, o => some (o, none)
  | [a], value, o => some (o.setProp a value, none)
  | a :: b :: rest, value, o =>
      if o.kind.excepted a then some (o, some (a :: b :: rest))
      else do
        let c ← (o.sub a).orElse fun _ => createNewObj (view o) (protoName pre a)
        let (c, left) ← assign (fun c => view (o.put a (.obj c))) a (b :: rest) value c
        return (o.put a (.obj c), left)

/-- The same from the array of the exceptions on. -/
def assignExcept : Nat → List Seg → Str → Props → Option Props
  | fuel + 1, a :: rest, value, excepts => do
      let c ← ((Obj.ofProps excepts).sub a).orElse fun _ =>
        createNewObj excepts "exceptObj".toList
      let (c, left) ← assign (fun c => excepts.put a (.obj c)) a rest value c
      let excepts := excepts.put a (.obj c)
      match left with
      | none => return excepts
      | some path => assignExcept fuel path value excepts
  | _, _, _, _ => none

/-- `set`: the configuration and the exceptions. -/
def set (cfg : Obj) (excepts : Props) (path : List Seg) (value : Str) : Option (Obj × Props) := do
  let (cfg, left) ← assign (fun _ => excepts) (.name []) path value cfg
  match left with
  | none => return (cfg, excepts)
  | some path => do
      let excepts ← assignExcept path.length path value excepts
      return (cfg, excepts)

/-! ## `parse` -/

/-- `split(/\r\n|\r|\n/)`. -/
def splitLines : Str → List Str
  | [] => [[]]
  | '\r' :: '\n' :: cs => [] :: splitLines cs
  | c :: cs =>
      if c = '\r' ∨ c = '\n' then [] :: splitLines cs
      else match splitLines cs with
        | line :: lines => (c :: line) :: lines
        | [] => [[c]]

/-- A line that is cut at its first `=`. -/
def entryOf (line : Str) : Option (Str × Str) :=
  if '=' ∈ line then some (line.takeWhile (· ≠ '='), (line.dropWhile (· ≠ '=')).drop 1) else none

def entries (text : Str) : List (Str × Str) := (splitLines text).filterMap entryOf

/-- What the hooks find out about the objects: which numbered objects the
sections keep, and how, what the limits of a shaper are, and how a rule is
printed. -/
structure Hooks where
  keep : Listed → Obj → Option Obj
  limits : Props → Props
  serialize : Rule → Str → Obj → List Str

/-- The longest array has `2 ^ 32 - 1` elements. -/
def Seg.visible : Seg → Bool
  | .name _ => true
  | .idx n => 0 < n && n < 2 ^ 32

/-- The objects of `objs`, in order. -/
def Props.objs : Props → List Obj
  | .nil => []
  | .str _ _ rest => rest.objs
  | .obj (.idx n) val kind kids rest =>
      if (Seg.idx n).visible then ⟨val, kind, kids⟩ :: rest.objs else rest.objs
  | .obj (.name _) _ _ _ rest => rest.objs

/-- The properties other than `objs`. -/
def Props.named : Props → Props
  | .nil => .nil
  | .str seg s rest => .str seg s rest.named
  | .obj (.idx _) _ _ _ rest => rest.named
  | .obj (.name s) val kind kids rest => .obj (.name s) val kind kids rest.named

/-- `this.objs = this.grep(keep)`. -/
def Props.grep (keep : Obj → Option Obj) (p : Props) : Props :=
  ((p.objs.filterMap keep).zipIdx 1).foldl (fun p x => p.put (.idx x.2) (.obj x.1)) p.named

/-- `init`, of an object that has it. -/
def Hooks.init (h : Hooks) (o : Obj) : Obj :=
  match o.kind with
  | .listed l => { o with kids := o.kids.grep (h.keep l) }
  | .shaper => { o with kids := h.limits o.kids }
  | _ => o

/-- `$.each` takes an object with a property `length` for an array, and visits
no property. -/
def Props.arrayLike (p : Props) : Bool := (p.find (.name "length".toList)).isSome

/-- `callInit`, for what is in the object. -/
def initProps (h : Hooks) : Props → Props
  | .nil => .nil
  | .str seg s rest => .str seg s (initProps h rest)
  | .obj seg val kind kids rest =>
      if seg.visible then
        .cons seg (.obj (h.init ⟨val, kind, if kids.arrayLike then kids else initProps h kids⟩))
          (initProps h rest)
      else .obj seg val kind kids (initProps h rest)

/-- How often `callInit` comes to the array of the exceptions. -/
def Props.meets : Props → Nat
  | .nil => 0
  | .str _ _ rest => rest.meets
  | .obj seg _ kind kids rest =>
      (if seg.visible ∧ ¬kids.arrayLike then (if kind = .except then 1 else 0) + kids.meets else 0) +
        rest.meets

def callInit (h : Hooks) (cfg : Obj) (excepts : Props) : Option (Obj × Props) :=
  if cfg.kids.arrayLike then some (cfg, excepts)
  else if cfg.kids.meets = 0 then some ({ cfg with kids := initProps h cfg.kids }, excepts)
  else if excepts.meets ≠ 0 then none
  else some ({ cfg with kids := initProps h cfg.kids }, (initProps h)^[cfg.kids.meets] excepts)

/-- The lines one after the other. -/
def load : List (Str × Str) → Obj → Props → Option (Obj × Props)
  | [], cfg, excepts => some (cfg, excepts)
  | (key, value) :: l, cfg, excepts => do
      let (cfg, excepts) ← set cfg excepts (path key) value
      load l cfg excepts

/-- `cfg.parse`: the configuration, and what is left in the prototype. -/
def parse (h : Hooks) (text : Str) (excepts : Props) : Option (Obj × Props) := do
  let (cfg, excepts) ← load (entries text) (.ofProps .nil) excepts
  callInit h cfg excepts

/-! ## `toCfg` -/

def version : Str := "1,0,3".toList

/-- `cfg.mkVersion`. -/
def mkVersion : Nat := ((version.splitOn ',').map parseInt).foldl (fun num p => (num <<< 8) ||| p) 0

/-- The key of what is in the section. -/
def dotted (key : Str) : Str := if key.isEmpty then key else key ++ ['.']

/-- `objToString`, for what is in an object; `shared` prints the exceptions. -/
def objToString (h : Hooks) (shared : Str → Option (List Str)) (key : Str) :
    Props → Option (List Str)
  | .nil => some []
  | .str seg s rest => do
      let lines ← objToString h shared key rest
      return if seg.visible then (key ++ (seg.text ++ ('=' :: s))) :: lines else lines
  | .obj seg val kind kids rest => do
      let lines ← objToString h shared key rest
      if seg.visible then
        let inner := dotted (key ++ seg.text)
        let own := if val.isEmpty then [] else [key ++ (seg.text ++ ('=' :: val))]
        match kind with
        | .rule r => return own ++ (h.serialize r inner ⟨val, kind, kids⟩ ++ lines)
        | .except => do
            let below ← objToString h shared inner kids
            let excepts ← shared inner
            return own ++ (below ++ (excepts ++ lines))
        | _ => do
            let below ← objToString h shared inner kids
            return own ++ (below ++ lines)
      else return lines

/-- `cfg.toCfg`: the lines, and the configuration with its version. -/
def toCfg (h : Hooks) (cfg : Obj) (excepts : Props) : Option (List Str × Obj × Props) := do
  let (cfg, excepts) ←
    set cfg excepts (path "system.cfg.version".toList) (Nat.toDigits 10 mkVersion)
  let lines ← objToString h (fun key => objToString h (fun _ => none) key excepts) [] cfg.kids
  return (lines, cfg, excepts)

end UbntSdk.Web
