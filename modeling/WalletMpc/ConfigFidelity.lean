import WalletMpc.ClientConfig

namespace WalletMpc.Client
open Fallible Proto KeyGen MpcClient
set_option autoImplicit true

def separator : List Char := [':', '/', '/']

def integerPaths : List (List String) := [["local_participant", "port"],
  ["local_participant", "index"], ["remote_services", "sign_gateway", "participant_port"],
  ["mpc", "threshold"], ["mpc", "total_participants"]]

/-- A URL that consists of a scheme, the host and the decimal port, and nothing else. -/
def IsAddress (url host : String) (port : UInt16) : Prop :=
  ∃ scheme digits : String, ¬ separator <:+: scheme.toList ∧
    url = scheme ++ "://" ++ host ++ ":" ++ digits ∧
    Decimals.parse digits.toList = some port.toNat

/-- Everything numeric in a configuration is what its document says. -/
structure ReadExactly (document : Yaml) (c : MpcConfig) : Prop where
  url : ∃ url, (document.at ["gateway", "url"]).bind Yaml.asStr = some url ∧
    IsAddress url c.sseHost c.ssePort
  integers : ∀ e ∈ c.integers, ∃ n, (document.at e.1).bind Yaml.asU64 = some n ∧
    n.toNat = e.2.toNat

/-- What the reader does not check: nothing stands behind the port or around the address, the
port has no sign, and the integers fit. -/
structure Exact (document : Yaml) : Prop where
  url : ∀ url, (document.at ["gateway", "url"]).bind Yaml.asStr = some url →
    ∃ scheme hostPort host port, splitScheme url.toList = [scheme, hostPort] ∧
      hostPort.splitOn ':' = [host, port] ∧ port.head? ≠ some '+'
  integers : ∀ path ∈ integerPaths, ∀ n, (document.at path).bind Yaml.asU64 = some n →
    n.toNat < 65536

theorem splitScheme_ne_nil (l : List Char) : splitScheme l ≠ [] := by
  intro h
  unfold splitScheme at h
  split at h
  · cases h
  · cases h
  · split at h
    · cases h
    · cases h

theorem splitScheme_cons {x : Char} {l : List Char} (h : ¬ separator <+: x :: l) :
    splitScheme (x :: l) = (splitScheme l).modifyHead (x :: ·) := by
  obtain ⟨part, parts, hl⟩ := List.exists_cons_of_ne_nil (splitScheme_ne_nil l)
  rw [splitScheme]
  · rw [hl, List.modifyHead_cons]
  · rintro rest rfl rfl
    exact h (List.prefix_append separator rest)

theorem not_infix_nil : ¬ separator <:+: [] := by
  rw [List.infix_nil]
  exact List.cons_ne_nil _ _

/-- A text is split at its first separator, if it has one. -/
theorem splitScheme_cases (l : List Char) : ¬ separator <:+: l ∧ splitScheme l = [l] ∨
    ∃ part rest, ¬ separator <:+: part ∧ l = part ++ (separator ++ rest) ∧
      splitScheme l = part :: splitScheme rest := by
  induction l with
  | nil => exact .inl ⟨not_infix_nil, rfl⟩
  | cons x l ih =>
    by_cases h : separator <+: x :: l
    · obtain ⟨rest, hrest⟩ := h
      refine .inr ⟨[], rest, not_infix_nil, hrest.symm, ?_⟩
      rw [← hrest]
      rfl
    · rw [splitScheme_cons h]
      rcases ih with ⟨hno, hl⟩ | ⟨part, rest, hno, rfl, hl⟩
      · refine .inl ⟨fun hinfix => ?_, by rw [hl]; rfl⟩
        exact (List.infix_cons_iff.1 hinfix).elim h hno
      · refine .inr ⟨x :: part, rest, fun hinfix => ?_, rfl, by rw [hl]; rfl⟩
        rcases List.infix_cons_iff.1 hinfix with hstarts | hinfix'
        · exact h (hstarts.trans (List.prefix_append (x :: part) _))
        · exact hno hinfix'

/-- A separator does not overlap with itself, so the first one ends a text without any. -/
theorem splitScheme_append {part : List Char} (h : ¬ separator <:+: part) (rest : List Char) :
    splitScheme (part ++ (separator ++ rest)) = part :: splitScheme rest := by
  induction part with
  | nil => rfl
  | cons x part ih =>
    have hpart : ¬ separator <:+: part := fun hinfix => h (List.infix_cons_iff.2 (.inr hinfix))
    have hstart : ¬ separator <+: x :: (part ++ (separator ++ rest)) := by
      intro hsep
      obtain ⟨hx, hsep1⟩ := List.cons_prefix_cons.1 hsep
      cases part with
      | nil => cases (List.cons_prefix_cons.1 hsep1).1
      | cons y part =>
        obtain ⟨hy, hsep2⟩ := List.cons_prefix_cons.1 hsep1
        cases part with
        | nil => cases (List.cons_prefix_cons.1 hsep2).1
        | cons z part =>
          have hz := (List.cons_prefix_cons.1 hsep2).1
          rw [← hx, ← hy, ← hz] at h
          exact h (List.prefix_append separator part).isInfix
    rw [List.cons_append, splitScheme_cons hstart, ih hpart]
    rfl

theorem splitScheme_eq_pair {l a b : List Char} (h : splitScheme l = [a, b]) :
    ¬ separator <:+: a ∧ l = a ++ (separator ++ b) := by
  rcases splitScheme_cases l with ⟨-, hl⟩ | ⟨part, rest, hno, rfl, hl⟩
  · cases hl.symm.trans h
  · obtain ⟨rfl, hrest⟩ := List.cons.inj (hl.symm.trans h)
    rcases splitScheme_cases rest with ⟨-, hb⟩ | ⟨part', rest', -, -, hb⟩
    · obtain ⟨rfl, -⟩ := List.cons.inj (hb.symm.trans hrest)
      exact ⟨hno, rfl⟩
    · exact absurd (List.cons.inj (hb.symm.trans hrest)).2 (splitScheme_ne_nil rest')

theorem notMem_head_splitOn {x : Char} {l part : List Char} {parts : List (List Char)}
    (h : l.splitOn x = part :: parts) : x ∉ part := by
  induction l generalizing part with
  | nil =>
    rw [List.splitOn_nil] at h
    cases h
    exact List.not_mem_nil
  | cons y l ih =>
    rw [List.splitOn_cons_eq_if_modifyHead] at h
    split at h
    · cases h
      exact List.not_mem_nil
    · next hne =>
      obtain ⟨part', parts', hl⟩ := List.exists_cons_of_ne_nil (List.splitOn_ne_nil x l)
      rw [hl, List.modifyHead_cons] at h
      cases h
      rw [List.mem_cons, not_or]
      exact ⟨fun he => hne (by rw [he]; exact beq_self_eq_true y), ih hl⟩

theorem sseAddress_eq_ok {url host : String} {port : UInt16} :
    sseAddress url = .ok (host, port) ↔ ∃ hostPort digits rest,
      (splitScheme url.toList)[1]? = some hostPort ∧
      hostPort.splitOn ':' = host.toList :: digits :: rest ∧
      Sse.parseU16 (String.ofList digits) = some port := by
  rw [sseAddress]
  apply Iff.intro
  · intro h
    split at h
    · cases h
    · next hostPort hparts =>
      dsimp only at h
      split at h
      · cases h
      · next sseHost hhost =>
        split at h
        · cases h
        · next ssePort hport =>
          cases h
          obtain ⟨digits, hdigits, hparse⟩ := Option.bind_eq_some_iff.1 hport
          cases hsplit : hostPort.splitOn ':' with
          | nil =>
            rw [hsplit] at hhost
            cases hhost
          | cons first others =>
            rw [hsplit] at hhost hdigits
            cases hhost
            cases others with
            | nil => cases hdigits
            | cons second rest =>
              cases hdigits
              refine ⟨hostPort, digits, rest, hparts, ?_, hparse⟩
              rw [String.toList_ofList]
              exact hsplit
  · rintro ⟨hostPort, digits, rest, hparts, hsplit, hport⟩
    simp only [hparts, hsplit, List.getElem?_cons_zero, List.getElem?_cons_succ,
      Option.bind_some, hport, String.ofList_toList]

theorem parseU16_iff {digits : List Char} (h : digits.head? ≠ some '+') :
    Sse.parseU16 (String.ofList digits) = some port ↔
      Decimals.parse digits = some port.toNat := by
  have hdigits : Sse.parseU16 (String.ofList digits) = (Decimals.parse digits).bind fun n =>
      if n < 65536 then some (UInt16.ofNat n) else none := by
    rw [Sse.parseU16, String.toList_ofList]
    split
    · exact absurd rfl h
    · rfl
  rw [hdigits, Option.bind_eq_some_iff]
  apply Iff.intro
  · rintro ⟨n, hn, hport⟩
    split at hport
    · next hlt =>
      have hval : (UInt16.ofNat n).toNat = n := UInt16.toNat_ofNat_of_lt hlt
      rw [← Option.some.inj hport, hval]
      exact hn
    · cases hport
  · intro hn
    refine ⟨_, hn, ?_⟩
    rw [if_pos port.toNat_lt, UInt16.ofNat_toNat]

theorem isDigit_of_parse {cs : List Char} (h : Decimals.parse cs = some n) :
    ∀ x ∈ cs, x.isDigit = true := by
  rw [Decimals.parse] at h
  split at h
  · next hall => exact List.all_eq_true.1 hall.2
  · cases h

theorem not_separator_address {host digits : List Char} (hhost : ':' ∉ host)
    (hdigits : ∀ x ∈ digits, x.isDigit = true) :
    splitScheme (host ++ ':' :: digits) = [host ++ ':' :: digits] := by
  have hcolon : ':' ∉ digits := fun hmem => by cases hdigits ':' hmem
  rcases splitScheme_cases (host ++ ':' :: digits) with ⟨-, h⟩ | ⟨part, rest, -, h, -⟩
  · exact h
  · obtain ⟨-, -, hrest⟩ := (List.append_cons_inj_of_notMem hhost hcolon).1 h
    cases hdigits '/' (by rw [hrest]; exact List.mem_cons_self)

/-- An address is read as it stands just when nothing comes before, between or behind what the
reader takes from it. -/
theorem isAddress_iff {url host : String} {port : UInt16} (h : sseAddress url = .ok (host, port)) :
    IsAddress url host port ↔ ∃ scheme hostPort host port,
      splitScheme url.toList = [scheme, hostPort] ∧ hostPort.splitOn ':' = [host, port] ∧
        port.head? ≠ some '+' := by
  obtain ⟨hostPort, digits, rest, hparts, hsplit, hport⟩ := sseAddress_eq_ok.1 h
  have hhost := notMem_head_splitOn hsplit
  apply Iff.intro
  · rintro ⟨scheme, text, hno, rfl, htext⟩
    have hdigits := isDigit_of_parse htext
    have hurl : (scheme ++ "://" ++ host ++ ":" ++ text).toList =
        scheme.toList ++ (separator ++ (host.toList ++ ':' :: text.toList)) := by
      simp only [String.toList_append, List.append_assoc]
      rfl
    refine ⟨scheme.toList, host.toList ++ ':' :: text.toList, host.toList, text.toList, ?_, ?_, ?_⟩
    · rw [hurl, splitScheme_append hno, not_separator_address hhost hdigits]
    · rw [List.splitOn_append_cons_self_of_not_mem hhost,
        List.splitOn_eq_singleton fun hmem => by cases hdigits ':' hmem]
    · intro hplus
      cases hdigits '+' (List.mem_of_mem_head? hplus)
  · rintro ⟨scheme, hostPort', host', digits', hscheme, hpair, hplus⟩
    rw [hscheme, List.getElem?_cons_succ, List.getElem?_cons_zero] at hparts
    cases hparts
    rw [hpair] at hsplit
    obtain ⟨rfl, htail⟩ := List.cons.inj hsplit
    obtain ⟨rfl, -⟩ := List.cons.inj htail
    obtain ⟨hno, hurl⟩ := splitScheme_eq_pair hscheme
    have hjoin : [':'].intercalate (hostPort.splitOn ':') = hostPort := List.intercalate_splitOn ':'
    rw [hpair, List.intercalate_cons_cons, List.intercalate_singleton] at hjoin
    refine ⟨String.ofList scheme, String.ofList digits', ?_, ?_, ?_⟩
    · rw [String.toList_ofList]
      exact hno
    · apply String.toList_injective
      rw [hurl, ← hjoin]
      simp only [String.toList_append, String.toList_ofList, List.append_assoc]
      rfl
    · rw [String.toList_ofList]
      exact (parseU16_iff hplus).1 hport

theorem toUInt16_eq_iff (n : UInt64) : n.toNat = n.toUInt16.toNat ↔ n.toNat < 65536 := by
  rw [UInt64.toNat_toUInt16]
  exact eq_comm.trans (Nat.mod_eq_iff_lt (by decide))

/-- An accepted configuration is what its document says just when the document is one of those
that the reader reads exactly. -/
theorem readExactly_iff {reader : Reader T J} {dir : Dir T R}
    (h : loadMpcConfig reader dir configPath = .ok c)
    (hread : readToString dir configPath = some yamlContent)
    (hyaml : reader.yaml yamlContent = .ok document) : ReadExactly document c ↔ Exact document := by
  obtain ⟨hfrom, _⟩ := loadMpcConfig_ok h hread hyaml
  obtain ⟨url, hurl, haddress⟩ := hfrom.url
  have hintegers : (∀ e ∈ c.integers, ∃ n, (document.at e.1).bind Yaml.asU64 = some n ∧
      n.toNat = e.2.toNat) ↔ ∀ path ∈ integerPaths, ∀ n,
        (document.at path).bind Yaml.asU64 = some n → n.toNat < 65536 := by
    have hpaths : integerPaths = c.integers.map Prod.fst := rfl
    rw [hpaths, List.forall_mem_map]
    refine forall₂_congr fun e he => ?_
    obtain ⟨n, hn, hval⟩ := hfrom.integers e he
    rw [hn, hval]
    apply Iff.intro
    · rintro ⟨n', hn', hsame⟩ n'' hn''
      cases hn'
      cases hn''
      exact (toUInt16_eq_iff n).1 hsame
    · intro hlt
      exact ⟨n, rfl, (toUInt16_eq_iff n).2 (hlt n rfl)⟩
  apply Iff.intro
  · intro hexact
    refine ⟨fun url' hurl' => ?_, hintegers.1 hexact.integers⟩
    obtain ⟨url'', hurl'', hplain⟩ := hexact.url
    cases hurl.symm.trans hurl'
    cases hurl.symm.trans hurl''
    exact (isAddress_iff haddress).1 hplain
  · intro hexact
    exact ⟨⟨url, hurl, (isAddress_iff haddress).2 (hexact.url url hurl)⟩,
      hintegers.2 hexact.integers⟩

/-- Texts are the documents that they write, and `none` is a file of one key share. -/
noncomputable def sampleReader : Reader (Option Yaml) Unit where
  yaml text := okOr text "invalid YAML"
  dict _ := .ok (Finmap.singleton "alice" ())
  valueToString _ := .ok "{}"
  entries m := m.entries.toList
  coe_entries m := m.entries.coe_toList

def sampleDir (document : Yaml) : Dir (Option Yaml) Unit
  | "config.yaml" => some (.text (some document))
  | "key_shares_1.json" => some (.text none)
  | _ => none

def sampleConfig (threshold : UInt16) : MpcConfig :=
  ⟨"127.0.0.1", 50051, 0, [⟨"alice", "{}"⟩], "127.0.0.1", 50050, "127.0.0.1", 8080, threshold, 3,
    "info"⟩

theorem sample_loaded {url : String} (h : sseAddress url = .ok ("127.0.0.1", 8080))
    (threshold : UInt64) :
    loadMpcConfig sampleReader (sampleDir (sampleDocument url threshold)) "config.yaml" =
      .ok (sampleConfig threshold.toUInt16) := by
  have hshares : readKeyShares sampleReader (sampleDir (sampleDocument url threshold))
      "key_shares_1.json" = .ok [⟨"alice", "{}"⟩] := by
    have hentries : (Finmap.singleton "alice" () : Accounts Unit).entries.toList =
        [⟨"alice", ()⟩] := Multiset.toList_singleton _
    have hlist : keyShareList sampleReader (sampleReader.entries (Finmap.singleton "alice" ())) =
        .ok [⟨"alice", "{}"⟩] := by
      change keyShareList sampleReader (Finmap.singleton "alice" ()).entries.toList = _
      rw [hentries]
      rfl
    have hfile : readToString (sampleDir (sampleDocument url threshold)) "key_shares_1.json" =
        some none := rfl
    have hdict : sampleReader.dict none = .ok (Finmap.singleton "alice" ()) := rfl
    simp only [readKeyShares, hfile, hdict, hlist]
  have hload : loadMpcConfig sampleReader (sampleDir (sampleDocument url threshold)) "config.yaml" =
      (sseAddress url).bind fun address =>
        (readKeyShares sampleReader (sampleDir (sampleDocument url threshold))
          "key_shares_1.json").map fun keyShares =>
            ⟨"127.0.0.1", 50051, 0, keyShares, "127.0.0.1", 50050, address.1, address.2,
              threshold.toUInt16, 3, "info"⟩ := rfl
  rw [hload, h, hshares]
  rfl

theorem readExactly_sample :
    ReadExactly (sampleDocument "http://127.0.0.1:8080" 2) (sampleConfig 2) := by
  apply (readExactly_iff (sample_loaded rfl 2) rfl rfl).2
  constructor
  case url =>
    intro url hurl
    cases hurl
    exact ⟨"http".toList, "127.0.0.1:8080".toList, "127.0.0.1".toList, "8080".toList, rfl,
      by decide, by decide⟩
  case integers =>
    simp only [integerPaths, List.forall_mem_cons]
    refine ⟨?_, ?_, ?_, ?_, ?_, List.forall_mem_nil _⟩
    all_goals
      intro n hn
      cases hn
      decide

/-- Text behind the port is dropped, and a threshold of 65538 becomes 2. -/
theorem loaded_inexactly :
    (loadMpcConfig sampleReader (sampleDir (sampleDocument "http://127.0.0.1:8080:9999" 2))
        "config.yaml" = .ok (sampleConfig 2) ∧
      ¬ReadExactly (sampleDocument "http://127.0.0.1:8080:9999" 2) (sampleConfig 2)) ∧
    loadMpcConfig sampleReader (sampleDir (sampleDocument "http://127.0.0.1:8080" 65538))
        "config.yaml" = .ok (sampleConfig 2) ∧
      ¬ReadExactly (sampleDocument "http://127.0.0.1:8080" 65538) (sampleConfig 2) := by
  refine ⟨⟨sample_loaded rfl 2, fun hexact => ?_⟩, sample_loaded rfl 65538, fun hexact => ?_⟩
  · obtain ⟨url, hurl, haddress⟩ := hexact.url
    cases hurl
    obtain ⟨scheme, hostPort, host, port, hscheme, hpair, -⟩ := (isAddress_iff rfl).1 haddress
    have hparts : splitScheme "http://127.0.0.1:8080:9999".toList =
        ["http".toList, "127.0.0.1:8080:9999".toList] := rfl
    cases hparts.symm.trans hscheme
    have hthree : "127.0.0.1:8080:9999".toList.splitOn ':' =
        ["127.0.0.1".toList, "8080".toList, "9999".toList] := by decide
    cases hthree.symm.trans hpair
  · have hthreshold : (["mpc", "threshold"], (2 : UInt16)) ∈ (sampleConfig 2).integers := by
      simp [MpcConfig.integers, sampleConfig]
    obtain ⟨n, hn, hsame⟩ := hexact.integers _ hthreshold
    cases hn
    cases hsame

end WalletMpc.Client
