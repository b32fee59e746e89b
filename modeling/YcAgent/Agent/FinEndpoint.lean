import YcAgent.Go.Map
import YcAgent.Go.Url
import YcAgent.Lib.Delimited

/-!
The URL with which the M3 agent ends a cycle. The process ids and the names of
the processes are two parameters, each a list with `($)` between its elements,
and both are written in one pass over the map. They can be split again, whatever
order the map is ranged over in.
-/

namespace YcAgent.Agent

open Go Lib.Delimited

/-- What is put between two process ids and between two names. -/
def finSeparator : Bytes := ascii "($)"

def base64Alphabet : Bytes :=
  ascii "ABCDEFGHIJKLMNOPQRSTUVWXYZabcdefghijklmnopqrstuvwxyz0123456789+/"

def base64Digit (n : Nat) : UInt8 := base64Alphabet.getD (n % 64) 65

/-- `base64.StdEncoding.EncodeToString`. -/
def base64 : Bytes → Bytes
  | a :: b :: c :: rest =>
    let n := a.toNat * 65536 + b.toNat * 256 + c.toNat
    [base64Digit (n / 262144), base64Digit (n / 4096), base64Digit (n / 64), base64Digit n] ++
      base64 rest
  | [a, b] =>
    let n := a.toNat * 65536 + b.toNat * 256
    [base64Digit (n / 262144), base64Digit (n / 4096), base64Digit (n / 64), equals]
  | [a] =>
    let n := a.toNat * 65536
    [base64Digit (n / 262144), base64Digit (n / 4096), equals, equals]
  | [] => []

example : base64 (ascii "UTC") = ascii "VVRD" ∧ base64 (ascii "MET+") = ascii "TUVUKw==" := by
  decide

/-- What the endpoint is made of besides the processes. The server is a URL up to
its path; the time stamp, the address and the names of the pod are made by the
agent and by Kubernetes and have nothing to escape. -/
structure FinSettings where
  server : Bytes
  outboundIP : Bytes
  timestamp : Bytes
  timezone : Bytes
  cpuCount : Nat
  kubernetes : Bool
  podName : Bytes
  /-- The namespace that has a pod of this name; empty if none is found. -/
  matchingNamespace : Bytes
  server_path : ∀ b ∈ server, b ≠ questionMark ∧ b ≠ hashSign ∧ isControl b = false
  outboundIP_plain : Plain outboundIP
  timestamp_plain : Plain timestamp
  podName_plain : Plain podName
  matchingNamespace_plain : Plain matchingNamespace

def getM3CommonEndpointParameters (o : FinSettings) : Bytes :=
  ascii "de=" ++ o.outboundIP ++ ascii "&ts=" ++ o.timestamp ++
    (ascii "&timezoneID=" ++ base64 o.timezone)

/-- The loop over the map, with `i` entries written of `size`. -/
def writeProcesses (size : Nat) : Nat → List (Int × Bytes) → Bytes → Bytes → Bytes × Bytes
  | _, [], ps, ns => (ps, ns)
  | i, (pid, name) :: rest, ps, ns =>
    if i + 1 = size then (ps ++ itoa pid, ns ++ name)
    else writeProcesses size (i + 1) rest (ps ++ itoa pid ++ finSeparator)
      (ns ++ name ++ finSeparator)

/-- The entries of a map in the order of a range loop over it. -/
def rangeEntries (pids : GoMap Int Bytes) (order : List Int) : List (Int × Bytes) :=
  order.map fun pid => (pid, (pids.lookup pid).getD [])

def getM3FinEndpoint (o : FinSettings) (pids : GoMap Int Bytes) (order : List Int) : Bytes :=
  let parameters := getM3CommonEndpointParameters o
  let size := pids.keys.length
  let parameters :=
    if 0 < size then
      let lists := writeProcesses size 0 (rangeEntries pids order) [] []
      parameters ++ (ascii "&pids=" ++ lists.1 ++ ascii "&m3apptoken=" ++ lists.2)
    else parameters
  let parameters := parameters ++ (ascii "&cpuCount=" ++ itoa o.cpuCount)
  let parameters :=
    if o.kubernetes then
      if o.matchingNamespace ≠ [] then
        parameters ++ (ascii "&pod=" ++ o.matchingNamespace ++ ascii "_" ++ o.podName)
      else parameters
    else parameters
  o.server ++ ascii "/m3-fin?" ++ parameters

theorem writeProcesses_eq {size i : Nat} {entries : List (Int × Bytes)} (hne : entries ≠ [])
    (hsize : i + entries.length = size) (ps ns : Bytes) :
    writeProcesses size i entries ps ns =
      (ps ++ finSeparator.intercalate (entries.map fun entry => itoa entry.1),
        ns ++ finSeparator.intercalate (entries.map fun entry => entry.2)) := by
  induction entries generalizing i ps ns with
  | nil => exact absurd rfl hne
  | cons entry rest ih =>
    obtain ⟨pid, name⟩ := entry
    rw [List.length_cons] at hsize
    cases rest with
    | nil =>
      have hlast : i + 1 = size := hsize
      rw [writeProcesses, if_pos hlast]
      simp
    | cons second rest =>
      have hmore : i + 1 ≠ size := by
        rw [List.length_cons] at hsize
        omega
      rw [writeProcesses, if_neg hmore, ih (List.cons_ne_nil _ _) (by omega)]
      simp only [List.map_cons, List.intercalate_cons_cons, List.append_assoc]

theorem finSeparator_unbordered : Unbordered finSeparator := by
  have hall : ∀ border ∈ finSeparator.inits, border ≠ [] → border ∈ finSeparator.tails →
      border = finSeparator := by decide
  intro border hne hfront hback
  exact hall border ((List.mem_inits _ _).2 hfront) hne ((List.mem_tails _ _).2 hback)

private theorem no_separator_itoa (n : Int) : ¬ finSeparator <:+: itoa n := by
  intro hinfix
  have hmem : (40 : UInt8) ∈ itoa n := hinfix.subset (by decide)
  exact absurd (mem_itoa hmem).1 (by decide)

/-- A name that can be told from the list it stands in: the separator is not in it, and
nothing in it ends the parameter. -/
structure ListedName (name : Bytes) : Prop where
  no_separator : ¬ finSeparator <:+: name
  no_ampersand : ampersand ∉ name
  no_hash : hashSign ∉ name

/-- A byte that has no meaning in a query but, at most, that of a space. -/
def QueryByte (b : UInt8) : Prop :=
  b ≠ ampersand ∧ b ≠ hashSign ∧ b ≠ percent ∧ b ≠ semicolon ∧ isControl b = false

instance (b : UInt8) : Decidable (QueryByte b) := inferInstanceAs (Decidable (_ ∧ _))

theorem queryByte_of_plain {b : UInt8} (h : needsEscape b = false) : QueryByte b := by
  simp only [needsEscape, Bool.or_eq_false_iff, beq_eq_false_iff_ne] at h
  obtain ⟨⟨⟨⟨⟨hcontrol, hampersand⟩, hhash⟩, hpercent⟩, -⟩, hsemicolon⟩ := h
  exact ⟨hampersand, hhash, hpercent, hsemicolon, hcontrol⟩

private theorem queryByte_base64Digit (n : Nat) : QueryByte (base64Digit n) := by
  have hall : ∀ b ∈ base64Alphabet, QueryByte b := by decide +kernel
  have hlength : base64Alphabet.length = 64 := rfl
  have hlt : n % 64 < base64Alphabet.length := by omega
  rw [base64Digit, List.getD_eq_getElem?_getD, List.getElem?_eq_getElem hlt]
  exact hall _ (List.getElem_mem hlt)

theorem queryByte_base64 (s : Bytes) : ∀ b ∈ base64 s, QueryByte b := by
  have hequals : QueryByte equals := by decide +kernel
  induction s using base64.induct with
  | case1 a b c rest ih =>
    rw [base64]
    simpa [queryByte_base64Digit] using ih
  | case2 a b => simp [base64, queryByte_base64Digit, hequals]
  | case3 a => simp [base64, queryByte_base64Digit, hequals]
  | case4 => simp [base64]

/-- The parameters, with the lists of the process ids and of the names. -/
def finPairs (o : FinSettings) (ps ns : Bytes) : List (Bytes × Bytes) :=
  [(ascii "de", o.outboundIP), (ascii "ts", o.timestamp), (ascii "timezoneID", base64 o.timezone),
    (ascii "pids", ps), (ascii "m3apptoken", ns), (ascii "cpuCount", itoa o.cpuCount)] ++
  if o.kubernetes ∧ o.matchingNamespace ≠ [] then
    [(ascii "pod", o.matchingNamespace ++ ascii "_" ++ o.podName)]
  else []

private theorem getM3FinEndpoint_eq (o : FinSettings) {pids : GoMap Int Bytes}
    (hne : pids.keys ≠ [])
    (order : List Int) {ps ns : Bytes}
    (hlists : writeProcesses pids.keys.length 0 (rangeEntries pids order) [] [] = (ps, ns)) :
    getM3FinEndpoint o pids order =
      (o.server ++ ascii "/m3-fin") ++
        questionMark :: writeQuery (finPairs o ps ns) := by
  have hsize : 0 < pids.keys.length := List.length_pos_iff.2 hne
  have hde : ascii "de=" = ascii "de" ++ [equals] := rfl
  have hts : ascii "&ts=" = ampersand :: (ascii "ts" ++ [equals]) := rfl
  have htimezone : ascii "&timezoneID=" = ampersand :: (ascii "timezoneID" ++ [equals]) := rfl
  have hpids : ascii "&pids=" = ampersand :: (ascii "pids" ++ [equals]) := rfl
  have htoken : ascii "&m3apptoken=" = ampersand :: (ascii "m3apptoken" ++ [equals]) := rfl
  have hcpu : ascii "&cpuCount=" = ampersand :: (ascii "cpuCount" ++ [equals]) := rfl
  have hpod : ascii "&pod=" = ampersand :: (ascii "pod" ++ [equals]) := rfl
  have hpath : ascii "/m3-fin?" = ascii "/m3-fin" ++ [questionMark] := rfl
  have hnested (x y : Bytes) :
      (if o.kubernetes then if o.matchingNamespace ≠ [] then x else y else y) =
        if o.kubernetes ∧ o.matchingNamespace ≠ [] then x else y := by
    split_ifs <;> simp_all
  simp only [getM3FinEndpoint, hnested, finPairs, writeQuery]
  split_ifs
  all_goals
    simp only [hlists, getM3CommonEndpointParameters, hde, hts, htimezone, hpids, htoken,
      hcpu, hpod,
      hpath, List.cons_append, List.map_cons, List.map_nil, List.nil_append, List.append_nil,
      List.intercalate_cons_cons, List.intercalate_singleton, writePair, List.append_assoc]

private theorem finPairs_keys (o : FinSettings) (ps ns : Bytes) :
    ∀ pair ∈ finPairs o ps ns, PlainKey pair.1 := by
  have hkeys :
      ∀ key ∈ [ascii "de", ascii "ts", ascii "timezoneID", ascii "pids", ascii "m3apptoken",
      ascii "cpuCount", ascii "pod"], PlainKey key := by decide +kernel
  intro pair hpair
  apply hkeys
  rcases List.mem_append.1 hpair with hfixed | hpod
  · exact List.mem_append_left [ascii "pod"] (List.mem_map_of_mem (f := Prod.fst) hfixed)
  · split at hpod
    · rw [List.mem_singleton.1 hpod]
      exact List.mem_append_right [_, _, _, _, _, _] (List.mem_singleton_self _)
    · cases hpod

private theorem finPairs_values {P : UInt8 → Prop} (hquery : ∀ b, QueryByte b → P b)
    (o : FinSettings) {ps ns : Bytes} (hps : ∀ b ∈ ps, P b) (hns : ∀ b ∈ ns, P b) :
    ∀ pair ∈ finPairs o ps ns, ∀ b ∈ pair.2, P b := by
  have hof {s : Bytes} (hs : Plain s) : ∀ b ∈ s, P b := fun b hb =>
    hquery b (queryByte_of_plain (hs b hb))
  intro pair hpair
  rcases List.mem_append.1 hpair with hfixed | hpod
  · simp only [List.mem_cons, List.not_mem_nil, or_false] at hfixed
    rcases hfixed with rfl | rfl | rfl | rfl | rfl | rfl
    · exact hof o.outboundIP_plain
    · exact hof o.timestamp_plain
    · exact fun b hb => hquery b (queryByte_base64 o.timezone b hb)
    · exact hps
    · exact hns
    · exact hof (plain_itoa o.cpuCount)
  · split at hpod
    · rw [List.mem_singleton.1 hpod]
      have hunderscore : Plain (ascii "_") := by decide +kernel
      exact hof ((o.matchingNamespace_plain.append hunderscore).append o.podName_plain)
    · cases hpod

/-- A parameter of a URL as it is written. -/
def rawParameter (url key : Bytes) : Option Bytes := (rawPairs (queryText url)).lookup key

/-- A parameter of a URL as `net/url` gives it to a server. -/
def parameter (url key : Bytes) : Option Bytes := (urlQuery url).bind fun pairs => pairs.lookup key

private theorem path_bytes (o : FinSettings) :
    ∀ b ∈ o.server ++ ascii "/m3-fin", b ≠ questionMark ∧ b ≠ hashSign ∧ isControl b = false := by
  have hpath : ∀ b ∈ ascii "/m3-fin", b ≠ questionMark ∧ b ≠ hashSign ∧ isControl b = false := by
    decide +kernel
  intro b hb
  exact (List.mem_append.1 hb).elim (o.server_path b) (hpath b)

section Lists

variable (o : FinSettings) {pids : GoMap Int Bytes} {order : List Int}

private theorem rangeEntries_perm (horder : order.Perm pids.keys) :
    (rangeEntries pids order).Perm (pids.entries.map fun entry => (entry.1, entry.2)) := by
  have hkeys : pids.keys = pids.entries.map Sigma.fst := rfl
  have hentries : (pids.entries.map Sigma.fst).map (fun pid => (pid, (pids.lookup pid).getD [])) =
      pids.entries.map fun entry => (entry.1, entry.2) := by
    rw [List.map_map]
    apply List.map_congr_left
    intro entry hentry
    have hlookup : pids.lookup entry.1 = some entry.2 := AList.mem_lookup_iff.2 hentry
    simp [hlookup]
  rw [← hentries, ← hkeys]
  exact horder.map _

private theorem lookup_of_mem_rangeEntries (horder : order.Perm pids.keys) {entry : Int × Bytes}
    (hentry : entry ∈ rangeEntries pids order) : pids.lookup entry.1 = some entry.2 := by
  have hmem := (rangeEntries_perm horder).mem_iff.1 hentry
  obtain ⟨⟨pid, name⟩, hpid, rfl⟩ := List.mem_map.1 hmem
  exact AList.mem_lookup_iff.2 hpid

private theorem rawParameter_fin (hne : pids.keys ≠ []) {ps ns : Bytes}
    (hlists : writeProcesses pids.keys.length 0 (rangeEntries pids order) [] [] = (ps, ns))
    (hps : ∀ b ∈ ps, b ≠ ampersand ∧ b ≠ hashSign) (hns : ∀ b ∈ ns, b ≠ ampersand ∧ b ≠ hashSign) :
    rawParameter (getM3FinEndpoint o pids order) (ascii "pids") = some ps ∧
    rawParameter (getM3FinEndpoint o pids order) (ascii "m3apptoken") = some ns := by
  have hkeys := finPairs_keys o ps ns
  have hvalues : ∀ pair ∈ finPairs o ps ns, ∀ b ∈ pair.2, b ≠ ampersand ∧ b ≠ hashSign :=
    finPairs_values (fun b hb => ⟨hb.1, hb.2.1⟩) o hps hns
  have hhash : ∀ b ∈ writeQuery (finPairs o ps ns), b ≠ hashSign :=
    forall_mem_writeQuery (by decide) (by decide) fun pair hpair =>
      ⟨fun b hb heq => (hkeys pair hpair).plain.not_mem rfl (heq ▸ hb),
        fun b hb => (hvalues pair hpair b hb).2⟩
  have hraw : rawPairs (queryText (getM3FinEndpoint o pids order)) = finPairs o ps ns := by
    rw [getM3FinEndpoint_eq o hne order hlists,
      queryText_append (fun b hb => ⟨(path_bytes o b hb).1, (path_bytes o b hb).2.1⟩)
        (fun hmem => hhash hashSign hmem rfl),
      rawPairs_writeQuery (by simp [finPairs])]
    intro pair hpair
    exact ⟨hkeys pair hpair, fun hmem => (hvalues pair hpair _ hmem).1 rfl⟩
  rw [rawParameter, rawParameter, hraw]
  exact ⟨rfl, rfl⟩

private theorem parameter_fin (hne : pids.keys ≠ []) {ps ns : Bytes}
    (hlists : writeProcesses pids.keys.length 0 (rangeEntries pids order) [] [] = (ps, ns))
    (hps : Plain ps) (hns : Plain ns) :
    parameter (getM3FinEndpoint o pids order) (ascii "pids") = some ps ∧
    parameter (getM3FinEndpoint o pids order) (ascii "m3apptoken") = some ns := by
  have hkeys := finPairs_keys o ps ns
  have hvalues : ∀ pair ∈ finPairs o ps ns, ∀ b ∈ pair.2, QueryByte b :=
    finPairs_values (fun b hb => hb) o (fun b hb => queryByte_of_plain (hps b hb))
      (fun b hb => queryByte_of_plain (hns b hb))
  have hbytes : ∀ b ∈ writeQuery (finPairs o ps ns), b ≠ hashSign ∧ isControl b = false := by
    apply forall_mem_writeQuery (P := fun b => b ≠ hashSign ∧ isControl b = false) (by decide)
      (by decide)
    intro pair hpair
    constructor
    · intro b hb
      obtain ⟨-, hhash, -, -, hcontrol⟩ := queryByte_of_plain ((hkeys pair hpair).plain b hb)
      exact ⟨hhash, hcontrol⟩
    · intro b hb
      obtain ⟨-, hhash, -, -, hcontrol⟩ := hvalues pair hpair b hb
      exact ⟨hhash, hcontrol⟩
  have hpairs : ∀ pair ∈ finPairs o ps ns, PlainKey pair.1 ∧ ampersand ∉ pair.2 := by
    intro pair hpair
    exact ⟨hkeys pair hpair, fun hmem => (hvalues pair hpair _ hmem).1 rfl⟩
  have hquery : urlQuery (getM3FinEndpoint o pids order) =
      some (decodePairs (finPairs o ps ns)) := by
    rw [getM3FinEndpoint_eq o hne order hlists, urlQuery, rawQuery_append (path_bytes o) hbytes,
      Option.map_some, parseQuery_writeQuery (by simp [finPairs]) hpairs]
  have hde : PlainKey (ascii "de") := hkeys (ascii "de", o.outboundIP) (by simp [finPairs])
  have hts : PlainKey (ascii "ts") := hkeys (ascii "ts", o.timestamp) (by simp [finPairs])
  have htimezone : PlainKey (ascii "timezoneID") :=
    hkeys (ascii "timezoneID", base64 o.timezone) (by simp [finPairs])
  have hpids : PlainKey (ascii "pids") := hkeys (ascii "pids", ps) (by simp [finPairs])
  have htoken : PlainKey (ascii "m3apptoken") := hkeys (ascii "m3apptoken", ns) (by simp [finPairs])
  rw [parameter, parameter, hquery, Option.bind_some, Option.bind_some, finPairs]
  simp only [List.cons_append]
  constructor
  · rw [lookup_decodePairs_of_ne hde (by decide), lookup_decodePairs_of_ne hts (by decide),
      lookup_decodePairs_of_ne htimezone (by decide), lookup_decodePairs_self hpids hps]
  · rw [lookup_decodePairs_of_ne hde (by decide), lookup_decodePairs_of_ne hts (by decide),
      lookup_decodePairs_of_ne htimezone (by decide), lookup_decodePairs_of_ne hpids (by decide),
      lookup_decodePairs_self htoken hns]

end Lists

/-- The two lists have as many elements as the map has entries, and together they
are its entries. As far as the names have nothing to escape, a server that reads
the URL with `net/url` is given the lists as they were written. -/
theorem finLists_split (o : FinSettings) (pids : GoMap Int Bytes) (order : List Int)
    (horder : order.Perm pids.keys) (hne : pids.keys ≠ [])
    (hnames : ∀ pid name, pids.lookup pid = some name → ListedName name) :
    ∃ ps ns,
      rawParameter (getM3FinEndpoint o pids order) (ascii "pids") = some ps ∧
      rawParameter (getM3FinEndpoint o pids order) (ascii "m3apptoken") = some ns ∧
      (split finSeparator ps).length = pids.keys.length ∧
      (split finSeparator ns).length = pids.keys.length ∧
      ((split finSeparator ps).zip (split finSeparator ns)).Perm
        (pids.entries.map fun entry => (itoa entry.1, entry.2)) ∧
      ((∀ pid name, pids.lookup pid = some name → Plain name) →
        parameter (getM3FinEndpoint o pids order) (ascii "pids") = some ps ∧
        parameter (getM3FinEndpoint o pids order) (ascii "m3apptoken") = some ns) := by
  have hperm := rangeEntries_perm horder
  have hlookup : ∀ entry ∈ rangeEntries pids order, pids.lookup entry.1 = some entry.2 :=
    fun entry hentry => lookup_of_mem_rangeEntries horder hentry
  have hlength : (rangeEntries pids order).length = pids.keys.length := by
    rw [rangeEntries, List.length_map]
    exact horder.length_eq
  have hsome : rangeEntries pids order ≠ [] := by
    intro hempty
    rw [hempty] at hlength
    exact hne (List.eq_nil_of_length_eq_zero hlength.symm)
  have hlists := writeProcesses_eq hsome (show 0 + _ = _ by rw [Nat.zero_add, hlength]) [] []
  rw [List.nil_append, List.nil_append] at hlists
  have hseparator : ∀ b ∈ finSeparator, needsEscape b = false := by decide +kernel
  have hps : Plain
      (finSeparator.intercalate ((rangeEntries pids order).map fun e => itoa e.1)) := by
    apply forall_mem_intercalate hseparator
    intro part hpart
    obtain ⟨entry, -, rfl⟩ := List.mem_map.1 hpart
    exact plain_itoa entry.1
  have hns : ∀ part ∈ (rangeEntries pids order).map fun e => e.2, ListedName part := by
    intro part hpart
    obtain ⟨entry, hentry, rfl⟩ := List.mem_map.1 hpart
    exact hnames entry.1 entry.2 (hlookup entry hentry)
  have hsplitPids : split finSeparator (finSeparator.intercalate
      ((rangeEntries pids order).map fun e => itoa e.1)) =
        (rangeEntries pids order).map fun e => itoa e.1 := by
    apply split_intercalate (by decide) finSeparator_unbordered _ (by simpa using hsome)
    intro part hpart
    obtain ⟨entry, -, rfl⟩ := List.mem_map.1 hpart
    exact no_separator_itoa entry.1
  have hsplitNames : split finSeparator (finSeparator.intercalate
      ((rangeEntries pids order).map fun e => e.2)) = (rangeEntries pids order).map fun e => e.2 :=
    split_intercalate (by decide) finSeparator_unbordered
      (fun part hpart => (hns part hpart).no_separator)
      (by simpa using hsome)
  obtain ⟨hrawPids, hrawNames⟩ := rawParameter_fin o hne hlists
    (fun b hb => ⟨(queryByte_of_plain (hps b hb)).1, (queryByte_of_plain (hps b hb)).2.1⟩)
    (forall_mem_intercalate (by decide +kernel) fun part hpart b hb =>
      ⟨fun heq => (hns part hpart).no_ampersand (heq ▸ hb),
        fun heq => (hns part hpart).no_hash (heq ▸ hb)⟩)
  refine ⟨_, _, hrawPids, hrawNames, ?_, ?_, ?_, ?_⟩
  · rw [hsplitPids, List.length_map, hlength]
  · rw [hsplitNames, List.length_map, hlength]
  · rw [hsplitPids, hsplitNames, List.zip_map']
    have hentries := hperm.map fun entry => (itoa entry.1, entry.2)
    rw [List.map_map] at hentries
    exact hentries
  · intro hplain
    apply parameter_fin o hne hlists hps
    apply forall_mem_intercalate hseparator
    intro part hpart
    obtain ⟨entry, hentry, rfl⟩ := List.mem_map.1 hpart
    exact hplain entry.1 entry.2 (hlookup entry hentry)

def plainSettings : FinSettings where
  server := ascii "https://yc"
  outboundIP := ascii "10.0.0.1"
  timestamp := ascii "2024-01-02T03-04-05"
  timezone := ascii "UTC"
  cpuCount := 4
  kubernetes := false
  podName := []
  matchingNamespace := []
  server_path := by decide +kernel
  outboundIP_plain := by decide +kernel
  timestamp_plain := by decide +kernel
  podName_plain := by decide +kernel
  matchingNamespace_plain := by decide +kernel

def namedAndUnnamed : GoMap Int Bytes where
  entries := [⟨7, ascii "shop"⟩, ⟨12, []⟩]
  nodupKeys := show [(7 : Int), 12].Nodup by decide

/-- The two are ranged over in the other order. -/
theorem namedAndUnnamed_split : ∃ ps ns,
    rawParameter (getM3FinEndpoint plainSettings namedAndUnnamed [12, 7]) (ascii "pids") = some ps ∧
    rawParameter (getM3FinEndpoint plainSettings namedAndUnnamed [12, 7]) (ascii "m3apptoken") =
      some ns ∧
    ((split finSeparator ps).zip (split finSeparator ns)).Perm
      [(ascii "7", ascii "shop"), (ascii "12", [])] := by
  have hnames : ∀ pid name, namedAndUnnamed.lookup pid = some name → ListedName name := by
    intro pid name hlookup
    have hmem : ⟨pid, name⟩ ∈ namedAndUnnamed.entries := AList.mem_lookup_iff.1 hlookup
    have hall : ∀ entry ∈ namedAndUnnamed.entries,
        entry.2.all (fun b => b ≠ 36 ∧ b ≠ ampersand ∧ b ≠ hashSign) = true := by decide
    have hbytes := List.all_eq_true.1 (hall _ hmem)
    refine ⟨?_, fun hbad => ?_, fun hbad => ?_⟩
    · intro hinfix
      have hdollar : (36 : UInt8) ∈ name := hinfix.subset (by decide)
      simpa using hbytes _ hdollar
    · simpa using hbytes _ hbad
    · simpa using hbytes _ hbad
  obtain ⟨ps, ns, hps, hns, -, -, hzip, -⟩ :=
    finLists_split plainSettings namedAndUnnamed [12, 7] (by decide) (by decide) hnames
  exact ⟨ps, ns, hps, hns, hzip⟩

end YcAgent.Agent
