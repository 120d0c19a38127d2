/-
UbntSdk.Web.CommandTheorems — commands of firewall rules are read back
(`package/ubnt-web/src/firewall.js`).

A command is a list of options, each with one value. The reader takes it apart
at the spaces, so a value is read back if it has no space, and an option if it
is printed at all. Where every printed value is without spaces, what is read is
computed option by option (`read_ends`).

For the other direction: what is read has no spaces, so two equal commands, one
with a field that was read and one with the field of the rule, have the same
field (`cancel_opt`).
-/
import UbntSdk.Web.FieldTheorems

namespace UbntSdk.Web

open UbntSdk.Lib.Js

/-! ## Parameters -/

theorem paramsOf_append (a b : List Char) :
    paramsOf (a ++ ' ' :: b) = paramsOf a ++ paramsOf b := by
  simp only [paramsOf, List.splitOn_eq_splitOnP]
  rw [List.splitOnP_append_cons a b (by simp), List.filter_append]

theorem paramsOf_nil : paramsOf [] = [] := by decide

theorem paramsOf_plain {v : List Char} (hne : v ≠ []) (hv : ' ' ∉ v) : paramsOf v = [v] := by
  have hall : ∀ c ∈ v, (c == ' ') = false := by
    intro c hc
    rw [beq_eq_false_iff_ne]
    rintro rfl
    exact hv hc
  rw [paramsOf, List.splitOn_eq_splitOnP, List.splitOnP_eq_singleton hall]
  simp [hne]

/-- No parameter is empty or holds a space. -/
theorem mem_paramsOf {cmd v : List Char} (h : v ∈ paramsOf cmd) : v ≠ [] ∧ ' ' ∉ v := by
  induction hlen : cmd.length using Nat.strong_induction_on generalizing cmd with
  | _ n ih =>
      by_cases hspace : ' ' ∈ cmd
      · obtain ⟨a, b, rfl, -⟩ := List.eq_append_cons_of_mem hspace
        rw [List.length_append, List.length_cons] at hlen
        rw [paramsOf_append] at h
        rcases List.mem_append.mp h with h | h
        · exact ih a.length (by omega) h rfl
        · exact ih b.length (by omega) h rfl
      · by_cases hne : cmd = []
        · rw [hne, paramsOf_nil] at h
          cases h
        · rw [paramsOf_plain hne hspace, List.mem_singleton] at h
          rw [h]
          exact ⟨hne, hspace⟩

/-- The command, with a space in front of each option. -/
theorem space_intercalate {l : List (List Char)} (h : l ≠ []) :
    ' ' :: [' '].intercalate l = l.flatMap (' ' :: ·) := by
  induction l with
  | nil => exact absurd rfl h
  | cons a l ih =>
      cases l with
      | nil => simp
      | cons b l =>
          have hrest := ih (by simp)
          rw [List.intercalate_cons_cons, List.flatMap_cons, ← hrest]
          simp

theorem paramsOf_space (a : List Char) : paramsOf (' ' :: a) = paramsOf a := by
  have happend := paramsOf_append [] a
  rwa [paramsOf_nil, List.nil_append, List.nil_append] at happend

theorem paramsOf_flatMap (l : List (List Char)) :
    paramsOf (l.flatMap (' ' :: ·)) = l.flatMap paramsOf := by
  induction l with
  | nil => exact paramsOf_nil
  | cons a l ih =>
      rw [List.flatMap_cons, List.flatMap_cons, List.cons_append, paramsOf_space, ← ih]
      cases l with
      | nil => rw [List.flatMap_nil, List.append_nil, paramsOf_nil, List.append_nil]
      | cons b l =>
          rw [List.flatMap_cons, List.cons_append, paramsOf_append, paramsOf_space]

theorem paramsOf_intercalate {l : List (List Char)} (h : l ≠ []) :
    paramsOf ([' '].intercalate l) = l.flatMap paramsOf := by
  rw [← paramsOf_space, space_intercalate h, paramsOf_flatMap]

/-! ## Reading options -/

theorem Key.ofParam_text (key : Key) : Key.ofParam key.text = some key := by
  cases key <;> decide

theorem Key.text_plain (key : Key) : key.text ≠ [] ∧ ' ' ∉ key.text := by
  cases key <;> decide

theorem paramsOf_arg {key : Key} {v : List Char} (hne : v ≠ []) (hv : ' ' ∉ v) :
    paramsOf (arg key v) = [key.text, v] := by
  rw [arg, paramsOf_append, paramsOf_plain key.text_plain.1 key.text_plain.2, paramsOf_plain hne hv]
  rfl

theorem read_arg {key : Key} {v : List Char} (hkey : key.invertible = false) (hne : v ≠ [])
    (hv : ' ' ∉ v) (rule : FwRule) (ps : List (List Char)) :
    readParams rule (paramsOf (arg key v) ++ ps) = readParams (key.set rule v) ps := by
  rw [paramsOf_arg hne hv]
  change readParams rule (key.text :: v :: ps) = _
  rw [readParams, Key.ofParam_text]
  simp [hkey]

/-- An option that is printed unless its value is empty. -/
theorem read_opt {rule : FwRule} {key : Key} {v : List Char} (hkey : key.invertible = false)
    (hv : ' ' ∉ v) (hsame : v = [] → key.set rule v = rule) (ps : List (List Char)) :
    readParams rule ((if v ≠ [] then [arg key v] else []).flatMap paramsOf ++ ps) =
      readParams (key.set rule v) ps := by
  by_cases hne : v = []
  · rw [if_neg (not_not_intro hne), List.flatMap_nil, List.nil_append, hsame hne]
  · rw [if_pos hne, List.flatMap_singleton, read_arg hkey hne hv]

theorem read_skip {x : List Char} (hx : Key.ofParam x = none) (rule : FwRule)
    (ps : List (List Char)) : readParams rule (x :: ps) = readParams rule ps := by
  cases ps with
  | nil => rfl
  | cons y ps => rw [readParams, hx]

theorem paramsOf_invArg {key : Key} {v : List Char} (hne : v ≠ []) (hv : ' ' ∉ v) (inv : Bool) :
    paramsOf (invArg key inv v) = key.text :: ((if inv then [['!']] else []) ++ [v]) := by
  rw [invArg, arg, paramsOf_append, paramsOf_plain key.text_plain.1 key.text_plain.2]
  cases inv with
  | false => rw [if_neg (by decide), if_neg (by decide), List.nil_append, paramsOf_plain hne hv]; rfl
  | true =>
      have happend := paramsOf_append ['!'] v
      rw [if_pos rfl, if_pos rfl]
      change [key.text] ++ paramsOf (['!'] ++ ' ' :: v) = _
      rw [happend, paramsOf_plain (by decide) (by decide), paramsOf_plain hne hv]
      rfl

/-- An option that can be inverted. -/
theorem read_optInv {rule : FwRule} {key : Key} {v : List Char} (hkey : key.invertible = true)
    (hv : ' ' ∉ v) (hbang : v ≠ ['!']) (hsame : v = [] → key.set rule v = rule) (inv : Bool)
    (ps : List (List Char)) :
    readParams rule ((if v ≠ [] then [invArg key inv v] else []).flatMap paramsOf ++ ps) =
      readParams (key.set (if inv && v ≠ [] then key.invert rule else rule) v) ps := by
  by_cases hne : v = []
  · rw [if_neg (not_not_intro hne), List.flatMap_nil, List.nil_append, if_neg (by simp [hne]),
      hsame hne]
  · rw [if_pos hne, List.flatMap_singleton, paramsOf_invArg hne hv]
    cases inv with
    | false =>
        change readParams rule (key.text :: v :: ps) = _
        rw [readParams, Key.ofParam_text]
        simp [hbang]
    | true =>
        change readParams rule (key.text :: ['!'] :: v :: ps) = _
        rw [readParams, Key.ofParam_text]
        simp [hkey, hne]

/-- What all commands begin with. -/
structure HeadPrintable (r : FwRule) : Prop where
  table : ' ' ∉ r.table
  chain : r.chain ≠ [] ∧ ' ' ∉ r.chain
  devname : ' ' ∉ r.devname
  target : ' ' ∉ r.target

/-- The protocol, the addresses and the ports. -/
structure EndsPlain (r : FwRule) : Prop where
  ipProto : r.hasIpProto = true → ' ' ∉ r.ipProto
  src : ' ' ∉ r.src
  dst : ' ' ∉ r.dst
  sport : r.hasIpProto = true → ' ' ∉ r.sport
  dport : r.hasIpProto = true → ' ' ∉ r.dport

/-- No field is a single `!`; a rule that is accepted has none. -/
structure NoBang (r : FwRule) : Prop where
  src : r.src ≠ ['!']
  dst : r.dst ≠ ['!']
  sport : r.sport ≠ ['!']
  dport : r.dport ≠ ['!']

theorem noBang_of_valid {r : FwRule} (h : validateRule r = []) : NoBang r := by
  have hip : validateIp ['!'] = false := by decide
  have hport : validatePort ['!'] = false := by decide +kernel
  simp only [validateRule, List.append_eq_nil_iff] at h
  obtain ⟨⟨⟨hsrc, hdst⟩, hsport⟩, hdport⟩ := h
  refine ⟨?_, ?_, ?_, ?_⟩
  · intro hbang
    simp [hbang, hip] at hsrc
  · intro hbang
    simp [hbang, hip] at hdst
  · intro hbang
    simp [hbang, hport] at hsport
  · intro hbang
    simp [hbang, hport] at hdport

theorem read_head {r : FwRule} (h : HeadPrintable r) (ps : List (List Char)) :
    readParams .fresh ((headArgs r).flatMap paramsOf ++ ps) =
      readParams { FwRule.fresh with table := r.table, chain := r.chain, devname := r.devname } ps := by
  rw [headArgs, List.flatMap_append, List.flatMap_append, List.append_assoc, List.append_assoc,
    read_opt rfl h.table (fun hnil => by rw [hnil]; rfl), List.flatMap_singleton,
    read_arg rfl h.chain.1 h.chain.2, read_opt rfl h.devname (fun hnil => by rw [hnil]; rfl)]
  rfl

theorem read_target {r : FwRule} (h : ' ' ∉ r.target) (rule : FwRule) :
    readParams rule (paramsOf (targetArg r)) =
      { rule with target := if r.target ≠ [] then r.target else DROP } := by
  have hplain : (if r.target ≠ [] then r.target else DROP) ≠ [] ∧
      ' ' ∉ (if r.target ≠ [] then r.target else DROP) := by
    split
    · rename_i hne
      exact ⟨hne, h⟩
    · decide
  have hread := @read_arg .j _ rfl hplain.1 hplain.2 rule []
  rwa [List.append_nil] at hread

/-- The keys of the two commands; the second one is that of `ebtables`. -/
def srcKey (eb : Bool) : Key := if eb then .ipSrc else .src

def sportKey (eb : Bool) : Key := if eb then .ipSport else .sport

def dstKey (eb : Bool) : Key := if eb then .ipDst else .dst

def dportKey (eb : Bool) : Key := if eb then .ipDport else .dport

/-- The two ends of the connection. -/
def endsArgs (eb : Bool) (r : FwRule) : List (List Char) :=
  endArgs r (srcKey eb) (sportKey eb) r.src r.sport r.srcInv r.sportInv ++
    endArgs r (dstKey eb) (dportKey eb) r.dst r.dport r.dstInv r.dportInv

section Set

variable (eb c : Bool) (rule : FwRule) (v : List Char)

theorem set_src : (srcKey eb).set (if c then (srcKey eb).invert rule else rule) v =
    { rule with src := v, srcInv := rule.srcInv || c } := by
  cases eb <;> cases c <;> simp [srcKey, Key.set, Key.invert]

theorem set_sport : (sportKey eb).set (if c then (sportKey eb).invert rule else rule) v =
    { rule with sport := v, sportInv := rule.sportInv || c } := by
  cases eb <;> cases c <;> simp [sportKey, Key.set, Key.invert]

theorem set_dst : (dstKey eb).set (if c then (dstKey eb).invert rule else rule) v =
    { rule with dst := v, dstInv := rule.dstInv || c } := by
  cases eb <;> cases c <;> simp [dstKey, Key.set, Key.invert]

theorem set_dport : (dportKey eb).set (if c then (dportKey eb).invert rule else rule) v =
    { rule with dport := v, dportInv := rule.dportInv || c } := by
  cases eb <;> cases c <;> simp [dportKey, Key.set, Key.invert]

end Set

/-- What is read of the two ends. -/
def withEnds (r rule : FwRule) : FwRule :=
  { rule with
    src := r.src
    sport := if r.hasIpProto then r.sport else []
    dst := r.dst
    dport := if r.hasIpProto then r.dport else []
    srcInv := r.srcInv && r.src ≠ []
    sportInv := r.hasIpProto && r.sportInv && r.sport ≠ []
    dstInv := r.dstInv && r.dst ≠ []
    dportInv := r.hasIpProto && r.dportInv && r.dport ≠ [] }

theorem read_ends (eb : Bool) {r : FwRule} (h : EndsPlain r) (hbang : NoBang r)
    (table chain proto devname ipProto : List Char) (ps : List (List Char)) :
    readParams { FwRule.fresh with
        table := table, chain := chain, proto := proto, devname := devname, ipProto := ipProto }
      ((endsArgs eb r).flatMap paramsOf ++ ps) =
    readParams (withEnds r { FwRule.fresh with
        table := table, chain := chain, proto := proto, devname := devname, ipProto := ipProto }) ps := by
  have hkeys : (srcKey eb).invertible = true ∧ (sportKey eb).invertible = true ∧
      (dstKey eb).invertible = true ∧ (dportKey eb).invertible = true := by
    cases eb <;> decide
  have hsame : ∀ rule : FwRule, (rule.src = [] → (srcKey eb).set rule [] = rule) ∧
      (rule.sport = [] → (sportKey eb).set rule [] = rule) ∧
      (rule.dst = [] → (dstKey eb).set rule [] = rule) ∧
      (rule.dport = [] → (dportKey eb).set rule [] = rule) := by
    intro rule
    obtain ⟨⟩ := rule
    cases eb <;> refine ⟨?_, ?_, ?_, ?_⟩ <;> (intro hnil; cases hnil; rfl)
  simp only [endsArgs, endArgs, List.flatMap_append, List.append_assoc]
  rw [read_optInv hkeys.1 h.src hbang.src (fun hnil => by rw [hnil]; exact (hsame _).1 rfl), set_src]
  cases hp : r.hasIpProto with
  | false =>
      simp only [Bool.false_eq_true, false_and, if_false, List.flatMap_nil, List.nil_append]
      rw [read_optInv hkeys.2.2.1 h.dst hbang.dst
        (fun hnil => by rw [hnil]; exact (hsame _).2.2.1 rfl), set_dst]
      simp [withEnds, hp, FwRule.fresh]
  | true =>
      simp only [true_and]
      rw [read_optInv hkeys.2.1 (h.sport hp) hbang.sport
        (fun hnil => by rw [hnil]; exact (hsame _).2.1 rfl), set_sport,
        read_optInv hkeys.2.2.1 h.dst hbang.dst
        (fun hnil => by rw [hnil]; exact (hsame _).2.2.1 rfl), set_dst,
        read_optInv hkeys.2.2.2 (h.dport hp) hbang.dport
        (fun hnil => by rw [hnil]; exact (hsame _).2.2.2 rfl), set_dport]
      simp [withEnds, hp, FwRule.fresh]

/-! ## What is read of a command -/

theorem ipProto_ne_nil {r : FwRule} (h : r.hasIpProto = true) : r.ipProto ≠ [] := by
  intro hnil
  have hzero : (!(toNumber []).eq 0) = false := by decide +kernel
  rw [FwRule.hasIpProto, hnil, hzero] at h
  cases h

theorem paramsOf_ipp2pArgs : paramsOf ipp2pArgs =
    [Key.m.text, Key.ipp2p, ['-', '-', 'i', 'p', 'p', '2', 'p']] := by
  decide

/-- The protocol that is read. -/
def readProto (r : FwRule) : List Char := if r.hasIpProto then r.ipProto else ['0']

/-- What is read of the command of an IP rule. -/
def readBack (proto : List Char) (r : FwRule) : FwRule :=
  { withEnds r { FwRule.fresh with
      table := r.table, chain := r.chain, proto := proto, devname := r.devname
      ipProto := readProto r } with
    target := if r.target ≠ [] then r.target else DROP }

/-- The protocol of an IP rule. -/
def ipProtoArgs (r : FwRule) : List (List Char) :=
  if r.hasIpProto then
    [if r.ipProto = Key.p2p then ipp2pArgs else arg .protocol r.ipProto] else []

theorem buildIpCmd_eq (r : FwRule) : buildIpCmd r =
    [' '].intercalate (headArgs r ++ ipProtoArgs r ++ endsArgs false r ++ [targetArg r]) := by
  rw [buildIpCmd, endsArgs]
  simp only [List.append_assoc]
  rfl

theorem read_ipCmd {r : FwRule} (hhead : HeadPrintable r) (h : EndsPlain r) (hbang : NoBang r) :
    readParams .fresh (paramsOf (buildIpCmd r)) = readBack [] r := by
  have hproto (ps : List (List Char)) :
      readParams { FwRule.fresh with table := r.table, chain := r.chain, devname := r.devname }
        ((ipProtoArgs r).flatMap paramsOf ++ ps) =
      readParams { FwRule.fresh with
        table := r.table, chain := r.chain, devname := r.devname, ipProto := readProto r } ps := by
    unfold readProto ipProtoArgs
    cases hp : r.hasIpProto with
    | false => rfl
    | true =>
        rw [if_pos rfl, if_pos rfl, List.flatMap_singleton]
        split
        · rename_i hp2p
          rw [paramsOf_ipp2pArgs, hp2p]
          change readParams _ (Key.m.text :: Key.ipp2p :: _ :: ps) = _
          rw [readParams, Key.ofParam_text]
          exact read_skip (by decide) _ ps
        · exact read_arg rfl (ipProto_ne_nil hp) (h.ipProto hp) _ ps
  rw [buildIpCmd_eq, paramsOf_intercalate (by simp)]
  simp only [List.flatMap_append, List.append_assoc, List.flatMap_singleton]
  rw [read_head hhead, hproto]
  refine (read_ends false h hbang r.table r.chain [] r.devname (readProto r) _).trans ?_
  rw [read_target hhead.target]
  rfl

theorem protoIP_plain : protoIP ≠ [] ∧ ' ' ∉ protoIP := by decide

theorem protoVLAN_plain : protoVLAN ≠ [] ∧ ' ' ∉ protoVLAN := by decide

/-- The protocols of an `ebtables` rule. -/
def ebProtoArgs (r : FwRule) : List (List Char) :=
  arg .p protoIP :: if r.hasIpProto then [arg .ipProtocol r.ipProto] else []

/-- The command of an `ebtables` rule for IP. -/
def ebIpCmd (r : FwRule) : List Char :=
  [' '].intercalate (headArgs r ++ ebProtoArgs r ++ endsArgs true r ++ [targetArg r])

theorem buildEbCmd_ip {r : FwRule} (h : r.proto = protoIP) : buildEbCmd r = some (ebIpCmd r) := by
  rw [buildEbCmd, protoArgs, if_pos h, h, Option.map_some, ebIpCmd, ebProtoArgs, endsArgs]
  simp only [List.append_assoc]
  rfl

theorem read_ebIpCmd {r : FwRule} (hhead : HeadPrintable r) (h : EndsPlain r) (hbang : NoBang r) :
    readParams .fresh (paramsOf (ebIpCmd r)) = readBack protoIP r := by
  have hproto (ps : List (List Char)) :
      readParams { FwRule.fresh with
          table := r.table, chain := r.chain, devname := r.devname, proto := protoIP }
        ((if r.hasIpProto then [arg .ipProtocol r.ipProto] else []).flatMap paramsOf ++ ps) =
      readParams { FwRule.fresh with
        table := r.table, chain := r.chain, devname := r.devname, proto := protoIP
        ipProto := readProto r } ps := by
    unfold readProto
    cases hp : r.hasIpProto with
    | false => rfl
    | true =>
        rw [if_pos rfl, if_pos rfl, List.flatMap_singleton]
        exact read_arg rfl (ipProto_ne_nil hp) (h.ipProto hp) _ ps
  rw [ebIpCmd, paramsOf_intercalate (by simp)]
  simp only [ebProtoArgs, List.flatMap_append, List.flatMap_cons, List.flatMap_nil,
    List.append_nil, List.append_assoc]
  rw [read_head hhead, read_arg rfl protoIP_plain.1 protoIP_plain.2]
  refine (hproto _).trans ?_
  rw [read_ends true h hbang r.table r.chain protoIP r.devname (readProto r), read_target hhead.target]
  rfl

/-- The command of an `ebtables` rule for a VLAN. -/
def ebVlanCmd (r : FwRule) (vlan : List Char) : List Char :=
  [' '].intercalate <| headArgs r ++ [arg .p protoVLAN] ++
    (if vlan ≠ [] then [arg .vlanId vlan] else []) ++ [targetArg r]

theorem buildEbCmd_vlan {r : FwRule} (h : r.proto = protoVLAN) :
    buildEbCmd r = r.vlan.map (ebVlanCmd r) := by
  have hne : ¬protoVLAN = protoIP := by decide
  rw [buildEbCmd, protoArgs, h, if_neg hne, if_pos rfl, Option.map_map]
  rfl

/-- What is read of the command of a VLAN rule. -/
theorem read_ebVlanCmd {r : FwRule} (hhead : HeadPrintable r) {vlan : List Char} (hne : vlan ≠ [])
    (hv : ' ' ∉ vlan) : readParams .fresh (paramsOf (ebVlanCmd r vlan)) =
      { FwRule.fresh with
        table := r.table, chain := r.chain, proto := protoVLAN, devname := r.devname
        vlan := some vlan, target := if r.target ≠ [] then r.target else DROP } := by
  rw [ebVlanCmd, paramsOf_intercalate (by simp), if_pos hne]
  simp only [List.flatMap_append, List.append_assoc, List.flatMap_singleton]
  rw [read_head hhead, read_arg rfl protoVLAN_plain.1 protoVLAN_plain.2, read_arg rfl hne hv,
    read_target hhead.target]
  rfl

/-! ## Round trip -/

/-- The same rule, up to white space around addresses and ports; an empty target
becomes `DROP`, and protocols that are 0 are not told apart. -/
structure SameRule (r r' : FwRule) : Prop where
  table : r'.table = r.table
  chain : r'.chain = r.chain
  devname : r'.devname = r.devname
  ipProto : r'.ipProto = r.ipProto ∨ r'.hasIpProto = false ∧ r.hasIpProto = false
  src : trim r'.src = trim r.src
  sport : trim r'.sport = trim r.sport
  dst : trim r'.dst = trim r.dst
  dport : trim r'.dport = trim r.dport
  vlan : r'.vlan.getD [] = r.vlan.getD []
  srcInv : r'.srcInv = r.srcInv
  sportInv : r'.sportInv = r.sportInv
  dstInv : r'.dstInv = r.dstInv
  dportInv : r'.dportInv = r.dportInv
  target : r'.target = if r.target ≠ [] then r.target else DROP

/-- The command of an `iptables` rule is read back, and built again. -/
def IpRoundTrip (r : FwRule) : Prop :=
  ∃ r', initRule .fresh (buildIpCmd r) = some r' ∧ SameRule r r' ∧ buildIpCmd r' = buildIpCmd r

/-- The command of an `ebtables` rule is read back, and built again. -/
def EbRoundTrip (r : FwRule) : Prop :=
  ∃ cmd r', buildEbCmd r = some cmd ∧ initRule .fresh cmd = some r' ∧
    (SameRule r r' ∧ r'.proto = r.proto) ∧ buildEbCmd r' = some cmd

/-- What a command does not hold is not there. -/
structure EndsPrinted (r : FwRule) : Prop where
  ports : r.hasIpProto = false → trim r.sport = [] ∧ trim r.dport = []
  srcInv : r.srcInv = true → r.src ≠ []
  sportInv : r.sportInv = true → r.hasIpProto = true ∧ r.sport ≠ []
  dstInv : r.dstInv = true → r.dst ≠ []
  dportInv : r.dportInv = true → r.hasIpProto = true ∧ r.dport ≠ []
  vlan : r.vlan.getD [] = []

/-- All values of an IP rule are printed, and without spaces. -/
structure IpPrintable (r : FwRule) : Prop extends HeadPrintable r, EndsPlain r, EndsPrinted r

/-- All values of a VLAN rule are printed, and without spaces. -/
structure VlanPrintable (r : FwRule) : Prop extends HeadPrintable r where
  vlan : ∃ vlan, r.vlan = some vlan ∧ vlan ≠ [] ∧ ' ' ∉ vlan
  hasIpProto : r.hasIpProto = false
  src : trim r.src = []
  sport : trim r.sport = []
  dst : trim r.dst = []
  dport : trim r.dport = []
  srcInv : r.srcInv = false
  sportInv : r.sportInv = false
  dstInv : r.dstInv = false
  dportInv : r.dportInv = false

theorem zero_hasIpProto {r : FwRule} (h : r.ipProto = ['0']) : r.hasIpProto = false := by
  have hzero : (!(toNumber ['0']).eq 0) = false := by decide +kernel
  rw [FwRule.hasIpProto, h, hzero]

theorem readBack_hasIpProto (proto : List Char) (r : FwRule) :
    (readBack proto r).hasIpProto = r.hasIpProto := by
  cases hp : r.hasIpProto with
  | false => exact zero_hasIpProto (by simp [readBack, withEnds, readProto, hp])
  | true =>
      rw [← hp, FwRule.hasIpProto, FwRule.hasIpProto]
      simp [readBack, withEnds, readProto, hp]

theorem trim_nil : trim [] = [] := by decide

/-- Which rules are read back as they are, once their values are read. -/
theorem sameRule_readBack_iff (proto : List Char) (r : FwRule) :
    SameRule r (readBack proto r) ↔ EndsPrinted r := by
  constructor
  · intro h
    refine ⟨fun hp => ⟨?_, ?_⟩, ?_, ?_, ?_, ?_, ?_⟩
    · simpa [readBack, withEnds, hp, trim_nil] using h.sport.symm
    · simpa [readBack, withEnds, hp, trim_nil] using h.dport.symm
    · simpa [readBack, withEnds] using h.srcInv
    · have hinv := h.sportInv
      simp only [readBack, withEnds] at hinv
      intro hset
      rw [hset] at hinv
      simpa using hinv
    · simpa [readBack, withEnds] using h.dstInv
    · have hinv := h.dportInv
      simp only [readBack, withEnds] at hinv
      intro hset
      rw [hset] at hinv
      simpa using hinv
    · exact h.vlan.symm
  · intro h
    refine ⟨rfl, rfl, rfl, ?_, rfl, ?_, rfl, ?_, h.vlan.symm, ?_, ?_, ?_, ?_, rfl⟩
    · rw [readBack_hasIpProto]
      cases hp : r.hasIpProto with
      | false => exact .inr ⟨rfl, rfl⟩
      | true => exact .inl (by simp [readBack, withEnds, readProto, hp])
    · cases hp : r.hasIpProto with
      | false => simp [readBack, withEnds, hp, trim_nil, (h.ports hp).1]
      | true => simp [readBack, withEnds, hp]
    · cases hp : r.hasIpProto with
      | false => simp [readBack, withEnds, hp, trim_nil, (h.ports hp).2]
      | true => simp [readBack, withEnds, hp]
    · simpa [readBack, withEnds] using h.srcInv
    · cases hset : r.sportInv with
      | false => simp [readBack, withEnds, hset]
      | true =>
          obtain ⟨hp, hne⟩ := h.sportInv hset
          simp [readBack, withEnds, hset, hp, hne]
    · simpa [readBack, withEnds] using h.dstInv
    · cases hset : r.dportInv with
      | false => simp [readBack, withEnds, hset]
      | true =>
          obtain ⟨hp, hne⟩ := h.dportInv hset
          simp [readBack, withEnds, hset, hp, hne]

theorem targetArg_congr {r r' : FwRule} (h : r'.target = if r.target ≠ [] then r.target else DROP) :
    targetArg r' = targetArg r := by
  have hne : r'.target ≠ [] := by
    rw [h]
    split
    · rename_i hne
      exact hne
    · decide
  rw [targetArg, targetArg, if_pos hne, h]

theorem headArgs_congr {r r' : FwRule} (htable : r'.table = r.table) (hchain : r'.chain = r.chain)
    (hdevname : r'.devname = r.devname) : headArgs r' = headArgs r := by
  rw [headArgs, headArgs, htable, hchain, hdevname]

theorem opt_inv (key : Key) (inv : Bool) (v : List Char) :
    (if v ≠ [] then [invArg key (inv && v ≠ []) v] else []) =
      if v ≠ [] then [invArg key inv v] else [] := by
  split
  · rename_i hne
    simp [hne]
  · rfl

theorem endArgs_readBack {r r' : FwRule} (hp : r'.hasIpProto = r.hasIpProto) (addrKey portKey : Key)
    (addr port : List Char) (addrInv portInv : Bool) :
    endArgs r' addrKey portKey addr (if r.hasIpProto then port else []) (addrInv && addr ≠ [])
        (r.hasIpProto && portInv && port ≠ []) =
      endArgs r addrKey portKey addr port addrInv portInv := by
  rw [endArgs, endArgs, opt_inv, hp]
  cases r.hasIpProto with
  | false => simp
  | true => simp only [true_and, if_true, Bool.true_and, opt_inv]

theorem endsArgs_readBack (eb : Bool) (proto : List Char) (r : FwRule) :
    endsArgs eb (readBack proto r) = endsArgs eb r :=
  congrArg₂ (· ++ ·) (endArgs_readBack (readBack_hasIpProto proto r) _ _ _ _ _ _)
    (endArgs_readBack (readBack_hasIpProto proto r) _ _ _ _ _ _)

theorem readBack_ipProto {r : FwRule} (hp : r.hasIpProto = true) (proto : List Char) :
    (readBack proto r).ipProto = r.ipProto := by
  simp [readBack, withEnds, readProto, hp]

/-- The protocol is printed again. -/
theorem protoArgs_congr {r r' : FwRule} (hp : r'.hasIpProto = r.hasIpProto)
    (h : r.hasIpProto = true → r'.ipProto = r.ipProto) :
    ipProtoArgs r' = ipProtoArgs r ∧ ebProtoArgs r' = ebProtoArgs r := by
  unfold ipProtoArgs ebProtoArgs
  rw [hp]
  cases hp : r.hasIpProto with
  | false => exact ⟨rfl, rfl⟩
  | true =>
      rw [h hp]
      exact ⟨rfl, rfl⟩

theorem buildIpCmd_readBack (r : FwRule) : buildIpCmd (readBack [] r) = buildIpCmd r := by
  obtain ⟨hproto, -⟩ := protoArgs_congr (readBack_hasIpProto [] r) fun hp => readBack_ipProto hp []
  rw [buildIpCmd_eq, buildIpCmd_eq, hproto, endsArgs_readBack, targetArg_congr (r := r) rfl]
  rfl

theorem ebIpCmd_readBack (r : FwRule) : ebIpCmd (readBack protoIP r) = ebIpCmd r := by
  obtain ⟨-, hproto⟩ :=
    protoArgs_congr (readBack_hasIpProto protoIP r) fun hp => readBack_ipProto hp protoIP
  rw [ebIpCmd, ebIpCmd, hproto, endsArgs_readBack, targetArg_congr (r := r) rfl]
  rfl

/-- A command is not white space. -/
theorem initRule_intercalate {l : List (List Char)} (h : l ≠ []) {r : FwRule}
    (hl : l.getLast h = targetArg r) :
    initRule .fresh ([' '].intercalate l) = some (readParams .fresh (paramsOf ([' '].intercalate l))) := by
  refine if_neg fun hempty => ?_
  have hmem : '-' ∈ ' ' :: [' '].intercalate l := by
    rw [space_intercalate h, List.mem_flatMap]
    refine ⟨l.getLast h, List.getLast_mem h, ?_⟩
    rw [hl]
    exact List.mem_cons_of_mem _ (List.mem_append_left _ (by decide))
  obtain ⟨pre, post, hcmd, -, hpre, hpost⟩ := trim_spec ([' '].intercalate l)
  rw [hempty, List.append_nil] at hcmd
  rw [hcmd] at hmem
  have hminus : space '-' = false := by decide
  rcases List.mem_cons.mp hmem with hspace | hmem
  · revert hspace
    decide
  · rcases List.mem_append.mp hmem with hmem | hmem
    · simp [hpre '-' hmem] at hminus
    · simp [hpost '-' hmem] at hminus

/-! ## Fields that are read -/

/-- No field holds a space. -/
structure Plain (r : FwRule) : Prop where
  table : ' ' ∉ r.table
  chain : ' ' ∉ r.chain
  proto : ' ' ∉ r.proto
  devname : ' ' ∉ r.devname
  ipProto : ' ' ∉ r.ipProto
  src : ' ' ∉ r.src
  sport : ' ' ∉ r.sport
  dst : ' ' ∉ r.dst
  dport : ' ' ∉ r.dport
  vlan : ∀ v ∈ r.vlan, ' ' ∉ v
  target : ' ' ∉ r.target

theorem Plain.invert {r : FwRule} (h : Plain r) (key : Key) : Plain (key.invert r) := by
  cases key <;> exact ⟨h.table, h.chain, h.proto, h.devname, h.ipProto, h.src, h.sport, h.dst,
    h.dport, h.vlan, h.target⟩

theorem Plain.set {r : FwRule} (h : Plain r) (key : Key) {v : List Char} (hv : ' ' ∉ v) :
    Plain (key.set r v) := by
  obtain ⟨htable, hchain, hproto, hdevname, hipProto, hsrc, hsport, hdst, hdport, hvlan, htarget⟩ := h
  cases key with
  | m =>
      rw [Key.set]
      split
      · have hp2p : ' ' ∉ Key.p2p := by decide
        exact ⟨htable, hchain, hproto, hdevname, hp2p, hsrc, hsport, hdst, hdport, hvlan, htarget⟩
      · exact ⟨htable, hchain, hproto, hdevname, hipProto, hsrc, hsport, hdst, hdport, hvlan, htarget⟩
  | vlanId =>
      refine ⟨htable, hchain, hproto, hdevname, hipProto, hsrc, hsport, hdst, hdport, ?_, htarget⟩
      intro w hw
      rwa [← Option.some.inj hw]
  | _ => constructor <;> assumption

theorem chain_set {r : FwRule} (h : r.chain ≠ []) (key : Key) {v : List Char} (hv : v ≠ []) :
    (key.set r v).chain ≠ [] := by
  cases key with
  | m =>
      rw [Key.set]
      split
      · exact h
      · exact h
  | A => exact hv
  | _ => exact h

theorem chain_invert (r : FwRule) (key : Key) : (key.invert r).chain = r.chain := by
  cases key <;> rfl

/-- What every option preserves holds of what is read. -/
theorem readParams_keeps {P : FwRule → Prop}
    (hset : ∀ (r : FwRule) (key : Key) (v : List Char), P r → v ≠ [] → ' ' ∉ v → P (key.set r v))
    (hinvert : ∀ (r : FwRule) (key : Key), P r → P (key.invert r)) {rule : FwRule}
    {ps : List (List Char)} (hps : ∀ p ∈ ps, p ≠ [] ∧ ' ' ∉ p) (h : P rule) :
    P (readParams rule ps) := by
  induction rule, ps using readParams.induct with
  | case1 rule param value params hnone ih =>
      rw [readParams, hnone]
      exact ih (List.forall_mem_cons.mp hps).2 h
  | case2 rule param value key hsome hbang =>
      rw [readParams, hsome]
      simp only [hbang, and_self, if_true]
      obtain ⟨hne, hplain⟩ := hps value (by simp)
      rw [← hbang.2]
      exact hset rule key value h hne hplain
  | case3 rule param value key hsome hbang value' params ih =>
      rw [readParams, hsome]
      simp only [hbang, and_self, if_true]
      obtain ⟨hne, hplain⟩ := hps value' (by simp)
      exact ih (fun p hp => hps p (by simp [hp])) (hset _ key value' (hinvert rule key h) hne hplain)
  | case4 rule param value params key hsome hbang ih =>
      rw [readParams, hsome]
      simp only [hbang, if_false]
      obtain ⟨hne, hplain⟩ := hps value (by simp)
      exact ih (fun p hp => hps p (by simp [hp])) (hset rule key value h hne hplain)
  | case5 ps rule hshort =>
      rwa [readParams]
      exact hshort

theorem plain_readParams (cmd : List Char) : Plain (readParams .fresh (paramsOf cmd)) := by
  refine readParams_keeps (fun r key v hr _ hv => hr.set key hv) (fun r key hr => hr.invert key)
    (fun p hp => mem_paramsOf hp) ?_
  constructor <;> simp [FwRule.fresh]

/-- Without a chain, the next parameter is read as one. -/
theorem chain_ne_nil {r : FwRule} (htable : ' ' ∉ r.table) (args : List (List Char))
    (h : (readParams .fresh (paramsOf ([' '].intercalate (headArgs r ++ args ++ [targetArg r])))).chain =
      r.chain) : r.chain ≠ [] := by
  intro hnil
  let rest := (if r.devname ≠ [] then [arg .i r.devname] else []) ++ args ++ [targetArg r]
  have hsplit : headArgs r ++ args ++ [targetArg r] =
      (if r.table ≠ [] then [arg .t r.table] else []) ++ ([arg .A []] ++ rest) := by
    rw [headArgs, hnil]
    simp only [List.append_assoc, rest]
  have harg : paramsOf (arg .A []) = [Key.A.text] := by decide
  rw [paramsOf_intercalate (by simp), hsplit, List.flatMap_append, List.flatMap_append,
    read_opt rfl htable (fun hnil => by rw [hnil]; rfl), List.flatMap_singleton, harg, hnil] at h
  have htarget : Key.j.text ∈ rest.flatMap paramsOf := by
    refine List.mem_flatMap.mpr ⟨targetArg r, by simp [rest], ?_⟩
    rw [targetArg, arg, paramsOf_append]
    exact List.mem_append_left _ (by decide)
  have hall : ∀ p ∈ rest.flatMap paramsOf, p ≠ [] ∧ ' ' ∉ p := by
    intro p hp
    obtain ⟨a, -, hp⟩ := List.mem_flatMap.mp hp
    exact mem_paramsOf hp
  obtain ⟨y, ps, hps⟩ := List.exists_cons_of_ne_nil (List.ne_nil_of_mem htarget)
  rw [hps] at h hall
  change (readParams _ (Key.A.text :: y :: ps)).chain = [] at h
  rw [readParams, Key.ofParam_text] at h
  simp only [Key.invertible, Bool.false_eq_true, false_and, if_false] at h
  obtain ⟨hy, hps⟩ := List.forall_mem_cons.mp hall
  exact readParams_keeps (P := fun r => r.chain ≠ []) (fun r key v hr hne _ => chain_set hr key hne)
    (fun r key hr => by rwa [chain_invert]) hps hy.1 h

/-! ## Equal commands -/

theorem space_inj {u v a b : List Char} (hu : ' ' ∉ u) (hv : ' ' ∉ v)
    (h : u ++ ' ' :: a = v ++ ' ' :: b) : u = v ∧ a = b := by
  have hsplit := congrArg (splitAt ' ') h
  rw [splitAt_append hu, splitAt_append hv] at hsplit
  exact Prod.mk.inj hsplit

theorem Key.text_inj {key key' : Key} (h : key.text = key'.text) : key = key' := by
  have hparam := congrArg ofParam h
  rwa [ofParam_text, ofParam_text, Option.some.injEq] at hparam

theorem Key.text_dash (key : Key) : ∃ t, key.text = '-' :: t := by
  cases key <;> exact ⟨_, rfl⟩

/-- The text goes on with one of these options. -/
def Starts (keys : List Key) (s : List Char) : Prop :=
  ∃ key ∈ keys, ∃ b, s = ' ' :: (key.text ++ ' ' :: b)

/-- The rest of a trimmed text has white space only. -/
theorem not_space_trim (s : List Char) :
    (trim s).filter (fun c => !space c) = s.filter fun c => !space c := by
  obtain ⟨pre, post, hs, -, hpre, hpost⟩ := trim_spec s
  have hnone {t : List Char} (ht : ∀ c ∈ t, space c = true) : t.filter (fun c => !space c) = [] := by
    rw [List.filter_eq_nil_iff]
    intro c hc
    simp [ht c hc]
  conv_rhs => rw [hs]
  rw [List.filter_append, List.filter_append, hnone hpre, hnone hpost, List.nil_append,
    List.append_nil]

/-- An option with its value, if it is printed, and a space in front. -/
def optText (key : Key) (inv : Bool) (v : List Char) : List Char :=
  (if v ≠ [] then [invArg key inv v] else []).flatMap (' ' :: ·)

theorem cancel_opt {key : Key} {keys : List Key} (hkey : key ∉ keys) {inv : Bool}
    {v v' s s' : List Char} (hs : Starts keys s) (hs' : Starts keys s') (hv' : ' ' ∉ v')
    (htrim : trim v' = trim v) (h : optText key inv v ++ s = optText key inv v' ++ s') :
    v = v' ∧ s = s' := by
  have hprinted {w : List Char} (hw : w ≠ []) (t : List Char) : optText key inv w ++ t =
      ' ' :: (key.text ++ ' ' :: ((if inv then ['!', ' '] else []) ++ (w ++ t))) := by
    rw [optText, if_pos hw, List.flatMap_singleton, invArg, arg]
    simp
  have hstart {k : Key} (hk : k ∈ keys) {a b : List Char}
      (heq : ' ' :: (k.text ++ ' ' :: a) = ' ' :: (key.text ++ ' ' :: b)) : False := by
    obtain ⟨htext, -⟩ := space_inj k.text_plain.2 key.text_plain.2 (List.cons.inj heq).2
    exact hkey (Key.text_inj htext ▸ hk)
  obtain ⟨k, hk, b, rfl⟩ := hs
  obtain ⟨k', hk', b', rfl⟩ := hs'
  by_cases hne : v = []
  · by_cases hne' : v' = []
    · rw [hne, hne'] at h ⊢
      exact ⟨rfl, List.append_cancel_left h⟩
    · rw [hne, hprinted hne'] at h
      exact (hstart hk h).elim
  · by_cases hne' : v' = []
    · rw [hne', hprinted hne] at h
      exact (hstart hk' h.symm).elim
    · rw [hprinted hne, hprinted hne'] at h
      have hrest := List.append_cancel_left
        (List.cons.inj (List.append_cancel_left (List.cons.inj h).2)).2
      by_cases hspace : ' ' ∈ v
      · -- The text behind the space would be the next option, but it is white space.
        obtain ⟨u, w, rfl, hu⟩ := List.eq_append_cons_of_mem hspace
        rw [List.append_assoc, List.cons_append] at hrest
        obtain ⟨rfl, hnext⟩ := space_inj hu hv' hrest
        obtain ⟨t, ht⟩ := k'.text_dash
        rw [ht] at hnext
        have hfilter : (' ' :: w).filter (fun c => !space c) = [] := by
          have hsame := (not_space_trim u).symm.trans
            ((congrArg (List.filter fun c => !space c) htrim).trans (not_space_trim _))
          rw [List.filter_append] at hsame
          exact List.append_cancel_left (hsame.symm.trans (List.append_nil _).symm)
        cases w with
        | nil => simp at hnext
        | cons c w =>
            obtain ⟨rfl, -⟩ := List.cons.inj hnext
            have hminus : (!space '-') = true := by decide
            exact absurd hminus (List.filter_eq_nil_iff.mp hfilter '-' (by simp))
      · obtain ⟨rfl, hnext⟩ := space_inj hspace hv' hrest
        rw [hnext]
        exact ⟨rfl, rfl⟩

theorem Starts.mono {keys keys' : List Key} {s : List Char} (h : Starts keys s)
    (hsub : keys ⊆ keys') : Starts keys' s := by
  obtain ⟨key, hkey, b, hs⟩ := h
  exact ⟨key, hsub hkey, b, hs⟩

theorem Starts.opt {keys : List Key} {s : List Char} (h : Starts keys s) (key : Key) (inv : Bool)
    (v : List Char) : Starts (key :: keys) (optText key inv v ++ s) := by
  by_cases hne : v = []
  · rw [hne]
    exact h.mono (List.subset_cons_self key keys)
  · rw [optText, if_pos hne, List.flatMap_singleton, invArg, arg]
    exact ⟨key, List.mem_cons_self, _, by simp; rfl⟩

/-- The two ends and what is behind them, as a text. -/
theorem flatMap_endsArgs (eb : Bool) (r : FwRule) (s : List Char) :
    (endsArgs eb r).flatMap (' ' :: ·) ++ s =
      optText (srcKey eb) r.srcInv r.src ++
        (optText (sportKey eb) r.sportInv (if r.hasIpProto then r.sport else []) ++
          (optText (dstKey eb) r.dstInv r.dst ++
            (optText (dportKey eb) r.dportInv (if r.hasIpProto then r.dport else []) ++ s))) := by
  cases hp : r.hasIpProto with
  | false => simp [endsArgs, endArgs, hp, optText]
  | true => simp [endsArgs, endArgs, hp, optText]

/-- Where what was read gives the same command, it is what was printed. -/
theorem ends_eq (eb : Bool) {r r' : FwRule} (h : SameRule r r') (hplain : Plain r')
    (hp : r'.hasIpProto = r.hasIpProto)
    (htext : (endsArgs eb r).flatMap (' ' :: ·) ++ ' ' :: targetArg r =
      (endsArgs eb r').flatMap (' ' :: ·) ++ ' ' :: targetArg r) :
    r.src = r'.src ∧ r.dst = r'.dst ∧
      (r.hasIpProto = true → r.sport = r'.sport ∧ r.dport = r'.dport) := by
  have hnodup : [srcKey eb, sportKey eb, dstKey eb, dportKey eb, .j].Nodup := by
    cases eb <;> decide
  have htarget : Starts [.j] (' ' :: targetArg r) := ⟨.j, by simp, _, rfl⟩
  rw [flatMap_endsArgs, flatMap_endsArgs, h.srcInv, h.sportInv, h.dstInv, h.dportInv, hp] at htext
  simp only [List.nodup_cons] at hnodup
  obtain ⟨hsrcKey, hsportKey, hdstKey, hdportKey, -⟩ := hnodup
  obtain ⟨hsrc, htext⟩ := cancel_opt hsrcKey (((htarget.opt _ _ _).opt _ _ _).opt _ _ _)
    (((htarget.opt _ _ _).opt _ _ _).opt _ _ _) hplain.src h.src htext
  obtain ⟨hsport, htext⟩ := cancel_opt hsportKey ((htarget.opt _ _ _).opt _ _ _)
    ((htarget.opt _ _ _).opt _ _ _) (by split; exacts [hplain.sport, List.not_mem_nil])
    (by split; exacts [h.sport, rfl]) htext
  obtain ⟨hdst, htext⟩ := cancel_opt hdstKey (htarget.opt _ _ _) (htarget.opt _ _ _) hplain.dst
    h.dst htext
  obtain ⟨hdport, -⟩ := cancel_opt hdportKey htarget htarget
    (by split; exacts [hplain.dport, List.not_mem_nil]) (by split; exacts [h.dport, rfl]) htext
  refine ⟨hsrc, hdst, fun hp => ?_⟩
  rw [if_pos hp, if_pos hp] at hsport hdport
  exact ⟨hsport, hdport⟩

theorem SameRule.hasIpProto {r r' : FwRule} (h : SameRule r r') : r'.hasIpProto = r.hasIpProto := by
  rcases h.ipProto with heq | ⟨hzero', hzero⟩
  · rw [FwRule.hasIpProto, FwRule.hasIpProto, heq]
  · rw [hzero', hzero]

theorem SameRule.ipProto_eq {r r' : FwRule} (h : SameRule r r') (hp : r.hasIpProto = true) :
    r'.ipProto = r.ipProto := by
  rcases h.ipProto with heq | ⟨-, hzero⟩
  · exact heq
  · simp [hp] at hzero

theorem headPrintable_of_same {r r' : FwRule} (h : SameRule r r') (hplain : Plain r')
    (hchain : r.chain ≠ []) : HeadPrintable r := by
  refine ⟨h.table ▸ hplain.table, ⟨hchain, h.chain ▸ hplain.chain⟩, h.devname ▸ hplain.devname, ?_⟩
  intro hspace
  have htarget := h.target
  by_cases hne : r.target = []
  · simp [hne] at hspace
  · rw [if_pos hne] at htarget
    exact hplain.target (htarget ▸ hspace)

/-- A rule that is read back is printed without spaces. -/
theorem plain_of_same (eb : Bool) (proto : FwRule → List (List Char)) {r r' : FwRule}
    (hproto : proto r' = proto r)
    (hread : r' = readParams .fresh (paramsOf
      ([' '].intercalate (headArgs r ++ proto r ++ endsArgs eb r ++ [targetArg r]))))
    (h : SameRule r r')
    (htext : [' '].intercalate (headArgs r' ++ proto r' ++ endsArgs eb r' ++ [targetArg r']) =
      [' '].intercalate (headArgs r ++ proto r ++ endsArgs eb r ++ [targetArg r])) :
    HeadPrintable r ∧ EndsPlain r := by
  have hplain : Plain r' := hread ▸ plain_readParams _
  have hchain : r.chain ≠ [] := by
    refine chain_ne_nil (h.table ▸ hplain.table) (proto r ++ endsArgs eb r) ?_
    rw [← List.append_assoc, ← hread, h.chain]
  have hspaced := congrArg (' ' :: ·) htext
  rw [space_intercalate (by simp), space_intercalate (by simp), hproto,
    headArgs_congr h.table h.chain h.devname, targetArg_congr h.target] at hspaced
  simp only [List.flatMap_append, List.append_assoc, List.flatMap_singleton] at hspaced
  obtain ⟨hsrc, hdst, hports⟩ := ends_eq eb h hplain h.hasIpProto
    (List.append_cancel_left (List.append_cancel_left hspaced)).symm
  refine ⟨headPrintable_of_same h hplain hchain, fun hp => ?_, ?_, ?_, fun hp => ?_, fun hp => ?_⟩
  · exact h.ipProto_eq hp ▸ hplain.ipProto
  · exact hsrc ▸ hplain.src
  · exact hdst ▸ hplain.dst
  · exact (hports hp).1 ▸ hplain.sport
  · exact (hports hp).2 ▸ hplain.dport

theorem initRule_cmd {args : List (List Char)} (r : FwRule) :
    initRule .fresh ([' '].intercalate (args ++ [targetArg r])) =
      some (readParams .fresh (paramsOf ([' '].intercalate (args ++ [targetArg r])))) :=
  initRule_intercalate (r := r) (by simp) (by simp)

/-- The command of an `iptables` rule is read back exactly if all that the rule
holds is printed, and without spaces. -/
theorem ipRoundTrip_iff {r : FwRule} (hvalid : validateRule r = []) :
    IpRoundTrip r ↔ IpPrintable r := by
  have hbang := noBang_of_valid hvalid
  constructor
  · rintro ⟨r', hinit, hsame, htext⟩
    obtain ⟨hproto, -⟩ := protoArgs_congr hsame.hasIpProto hsame.ipProto_eq
    rw [buildIpCmd_eq, buildIpCmd_eq] at htext
    rw [buildIpCmd_eq, initRule_cmd, Option.some.injEq] at hinit
    obtain ⟨hhead, hplain⟩ := plain_of_same false ipProtoArgs hproto hinit.symm hsame htext
    rw [← buildIpCmd_eq, read_ipCmd hhead hplain hbang] at hinit
    rw [← hinit, sameRule_readBack_iff] at hsame
    exact ⟨hhead, hplain, hsame⟩
  · rintro ⟨hhead, hplain, hprinted⟩
    refine ⟨readBack [] r, ?_, (sameRule_readBack_iff [] r).mpr hprinted, buildIpCmd_readBack r⟩
    rw [← read_ipCmd hhead hplain hbang, buildIpCmd_eq, initRule_cmd]

/-- The same for `ebtables` rules for IP. -/
theorem ebRoundTrip_ip_iff {r : FwRule} (hvalid : validateRule r = []) (hip : r.proto = protoIP) :
    EbRoundTrip r ↔ IpPrintable r := by
  have hbang := noBang_of_valid hvalid
  constructor
  · rintro ⟨cmd, r', hcmd, hinit, ⟨hsame, hip'⟩, htext⟩
    rw [buildEbCmd_ip hip, Option.some.injEq] at hcmd
    rw [buildEbCmd_ip (hip'.trans hip), Option.some.injEq, ← hcmd] at htext
    obtain ⟨-, hproto⟩ := protoArgs_congr hsame.hasIpProto hsame.ipProto_eq
    rw [← hcmd, ebIpCmd, initRule_cmd, Option.some.injEq] at hinit
    obtain ⟨hhead, hplain⟩ := plain_of_same true ebProtoArgs hproto hinit.symm hsame htext
    rw [← ebIpCmd, read_ebIpCmd hhead hplain hbang] at hinit
    rw [← hinit, sameRule_readBack_iff] at hsame
    exact ⟨hhead, hplain, hsame⟩
  · rintro ⟨hhead, hplain, hprinted⟩
    refine ⟨ebIpCmd r, readBack protoIP r, buildEbCmd_ip hip, ?_,
      ⟨(sameRule_readBack_iff protoIP r).mpr hprinted, hip.symm⟩, ?_⟩
    · rw [← read_ebIpCmd hhead hplain hbang, ebIpCmd, initRule_cmd]
    · rw [buildEbCmd_ip rfl, ebIpCmd_readBack]

/-- A VLAN that is read is not empty. -/
theorem vlan_readParams (cmd : List Char) : ∀ v ∈ (readParams .fresh (paramsOf cmd)).vlan, v ≠ [] := by
  refine readParams_keeps (P := fun r => ∀ v ∈ r.vlan, v ≠ []) ?_ ?_ (fun p hp => mem_paramsOf hp)
    (by simp [FwRule.fresh])
  · intro r key v hr hne _
    cases key with
    | m =>
        rw [Key.set]
        split
        · exact hr
        · exact hr
    | vlanId =>
        intro w hw
        rwa [← Option.some.inj hw]
    | _ => exact hr
  · intro r key hr
    cases key <;> exact hr

theorem sameRule_vlan_iff {r : FwRule} {vlan : List Char} (hvlan : r.vlan = some vlan) :
    SameRule r { FwRule.fresh with
        table := r.table, chain := r.chain, proto := protoVLAN, devname := r.devname
        vlan := some vlan, target := if r.target ≠ [] then r.target else DROP } ↔
      r.hasIpProto = false ∧ (trim r.src = [] ∧ trim r.sport = [] ∧ trim r.dst = [] ∧
        trim r.dport = []) ∧ r.srcInv = false ∧ r.sportInv = false ∧ r.dstInv = false ∧
          r.dportInv = false := by
  constructor
  · intro h
    refine ⟨h.hasIpProto.symm.trans (zero_hasIpProto rfl), ⟨?_, ?_, ?_, ?_⟩, h.srcInv.symm,
      h.sportInv.symm, h.dstInv.symm, h.dportInv.symm⟩
    · exact h.src.symm.trans trim_nil
    · exact h.sport.symm.trans trim_nil
    · exact h.dst.symm.trans trim_nil
    · exact h.dport.symm.trans trim_nil
  · rintro ⟨hzero, ⟨hsrc, hsport, hdst, hdport⟩, hsrcInv, hsportInv, hdstInv, hdportInv⟩
    exact ⟨rfl, rfl, rfl, .inr ⟨zero_hasIpProto rfl, hzero⟩, trim_nil.trans hsrc.symm,
      trim_nil.trans hsport.symm, trim_nil.trans hdst.symm, trim_nil.trans hdport.symm,
      by rw [hvlan], hsrcInv.symm, hsportInv.symm, hdstInv.symm, hdportInv.symm, rfl⟩

theorem ebVlanCmd_congr {r r' : FwRule} (h : SameRule r r') (vlan : List Char) :
    ebVlanCmd r' vlan = ebVlanCmd r vlan := by
  rw [ebVlanCmd, ebVlanCmd, headArgs_congr h.table h.chain h.devname, targetArg_congr h.target]

/-- The same for `ebtables` rules for VLANs. -/
theorem ebRoundTrip_vlan_iff {r : FwRule} (hproto : r.proto = protoVLAN) :
    EbRoundTrip r ↔ VlanPrintable r := by
  constructor
  · rintro ⟨cmd, r', hcmd, hinit, ⟨hsame, hproto'⟩, htext⟩
    rw [buildEbCmd_vlan hproto] at hcmd
    rw [buildEbCmd_vlan (hproto'.trans hproto)] at htext
    obtain ⟨vlan, hvlan, rfl⟩ := Option.map_eq_some_iff.mp hcmd
    obtain ⟨vlan', hvlan', -⟩ := Option.map_eq_some_iff.mp htext
    have hsameVlan : vlan' = vlan := by simpa [hvlan, hvlan'] using hsame.vlan
    rw [ebVlanCmd, initRule_cmd, Option.some.injEq] at hinit
    have hplain : Plain r' := hinit ▸ plain_readParams _
    have hne : vlan ≠ [] := by
      rw [← hsameVlan]
      exact (hinit ▸ vlan_readParams _ : ∀ v ∈ r'.vlan, v ≠ []) vlan' hvlan'
    have hv : ' ' ∉ vlan := hsameVlan ▸ hplain.vlan vlan' hvlan'
    have hchain : r.chain ≠ [] := by
      refine chain_ne_nil (h := ?_) (hsame.table ▸ hplain.table)
        ([arg .p protoVLAN] ++ if vlan ≠ [] then [arg .vlanId vlan] else [])
      rw [← List.append_assoc, hinit, hsame.chain]
    have hhead := headPrintable_of_same hsame hplain hchain
    rw [← ebVlanCmd, read_ebVlanCmd hhead hne hv] at hinit
    rw [← hinit, sameRule_vlan_iff hvlan] at hsame
    obtain ⟨hzero, ⟨hsrc, hsport, hdst, hdport⟩, hsrcInv, hsportInv, hdstInv, hdportInv⟩ := hsame
    exact ⟨hhead, ⟨vlan, hvlan, hne, hv⟩, hzero, hsrc, hsport, hdst, hdport, hsrcInv, hsportInv,
      hdstInv, hdportInv⟩
  · rintro ⟨hhead, ⟨vlan, hvlan, hne, hv⟩, hzero, hsrc, hsport, hdst, hdport, hsrcInv, hsportInv,
      hdstInv, hdportInv⟩
    have hsame := (sameRule_vlan_iff hvlan).mpr
      ⟨hzero, ⟨hsrc, hsport, hdst, hdport⟩, hsrcInv, hsportInv, hdstInv, hdportInv⟩
    refine ⟨ebVlanCmd r vlan, _, ?_, ?_, ⟨hsame, hproto.symm⟩, ?_⟩
    · rw [buildEbCmd_vlan hproto, hvlan]
      rfl
    · rw [← read_ebVlanCmd hhead hne hv, ebVlanCmd, initRule_cmd]
    · rw [buildEbCmd_vlan rfl, Option.map_some, ebVlanCmd_congr hsame]

/-- Accepted rules are read back exactly if all that they hold is printed, and
without spaces. -/
theorem roundTrip_iff {r : FwRule} (hvalid : validateRule r = []) :
    (IpRoundTrip r ↔ IpPrintable r) ∧ (r.proto = protoIP → (EbRoundTrip r ↔ IpPrintable r)) ∧
      (r.proto = protoVLAN → (EbRoundTrip r ↔ VlanPrintable r)) :=
  ⟨ipRoundTrip_iff hvalid, ebRoundTrip_ip_iff hvalid, ebRoundTrip_vlan_iff⟩

/-- TCP from some ports, as they are typed. -/
def portsRule (sport : List Char) : FwRule :=
  createRule ⟨[], protoIP, ['6'], [], sport, [], [], false, false, false, false, DROP⟩

theorem roundTrip_ports : IpPrintable (portsRule ['8', '0', ':', '9', '0']) ∧
    IpRoundTrip (portsRule ['8', '0', ':', '9', '0']) := by
  have hvalid : validateRule (portsRule ['8', '0', ':', '9', '0']) = [] := by decide +kernel
  have hprintable : IpPrintable (portsRule ['8', '0', ':', '9', '0']) := by
    refine ⟨⟨?_, ?_, ?_, ?_⟩, ⟨?_, ?_, ?_, ?_, ?_⟩, ⟨?_, ?_, ?_, ?_, ?_, ?_⟩⟩
    all_goals decide +kernel
  exact ⟨hprintable, (roundTrip_iff hvalid).1.mpr hprintable⟩

/-- Spaces around the colon are accepted, and lost with the second port. -/
theorem not_roundTrip_spaces : validateRule (portsRule ['8', '0', ' ', ':', ' ', '9', '0']) = [] ∧
    ¬IpRoundTrip (portsRule ['8', '0', ' ', ':', ' ', '9', '0']) := by
  have hvalid : validateRule (portsRule ['8', '0', ' ', ':', ' ', '9', '0']) = [] := by
    decide +kernel
  refine ⟨hvalid, fun htrip => ?_⟩
  have hproto : (portsRule ['8', '0', ' ', ':', ' ', '9', '0']).hasIpProto = true := by
    decide +kernel
  refine ((ipRoundTrip_iff hvalid).mp htrip).sport hproto ?_
  decide +kernel

end UbntSdk.Web
