import AegisHoneypot.PayloadFetch
import AegisHoneypot.Library.PatternSplit
import Mathlib.Data.Finset.Dedup

-- The gateway and the forensics engine look for addresses and URLs in the same
-- bytes by different ways: the one blanks what is not printable, the other cuts
-- there, drops the short pieces and joins the rest.
namespace AegisHoneypot.IocAgreement
open Utf8Text Forensics PayloadFetch Pattern

def asciiText (run : Bytes) : Text := run.map (fun byte => Char.ofNat byte.toNat)

-- The runs of printable bytes, the empty ones between two separators included.
def runs (data : Bytes) : List Bytes := data.splitOnP (fun byte => !isPrintable byte)

def Printable (run : Bytes) : Prop := ∀ byte ∈ run, isPrintable byte = true

theorem printable_char (byte : UInt8) (printable : isPrintable byte = true) : encodeChar (Char.ofNat byte.toNat) = [byte] := by
  have range : byte.toNat < 0x7f := by
    simp only [isPrintable,Bool.or_eq_true,Bool.and_eq_true,decide_eq_true_eq,beq_iff_eq,UInt8.le_iff_toNat_le] at printable
    rcases printable with graphic | rfl
    · exact Nat.lt_succ_of_le graphic.2
    · decide
  have same : (Char.ofNat byte.toNat).toNat = byte.toNat := by
    unfold Char.ofNat
    rw [dif_pos (Or.inl (by omega))]
    rfl
  unfold encodeChar
  dsimp only
  rw [same,if_pos (by omega),UInt8.ofNat_toNat]

theorem printable_bytes (run : Bytes) (printable : Printable run) : encode (asciiText run) = run := by
  induction run with
  | nil => rfl
  | cons byte rest ih =>
    obtain ⟨first,later⟩ := List.forall_mem_cons.mp printable
    rw [asciiText,List.map_cons,encode,List.flatMap_cons,printable_char byte first]
    exact congrArg (byte :: ·) (ih later)

theorem keepRun_printable (minLen : Nat) (results : List Text) (run : Bytes) (printable : Printable run) :
    keepRun minLen results run = results ++ (([run] : List Bytes).filter (fun run => decide (minLen ≤ run.length))).map asciiText := by
  have text : fromUtf8 run = some (asciiText run) := fromUtf8_iff.mpr (printable_bytes run printable).symm
  unfold keepRun
  rw [text]
  by_cases long : minLen ≤ run.length
  · rw [if_pos long,List.filter_cons_of_pos (by simpa using long)]
    rfl
  · rw [if_neg long,List.filter_cons_of_neg (by simpa using long)]
    exact (List.append_nil _).symm

theorem runs_cons (byte : UInt8) (rest : Bytes) : runs (byte :: rest) =
    if isPrintable byte then (runs rest).modifyHead (byte :: ·) else [] :: runs rest := by
  unfold runs
  rw [List.splitOnP_cons_eq_if_modifyHead]
  cases isPrintable byte <;> rfl

-- The loop from a run begun to the end of the data.
theorem extract_scanned (minLen : Nat) (data : Bytes) (results : List Text) (current : Bytes) (printable : Printable current) :
    keepRun minLen (data.foldl (extractStep minLen) (results,current)).1 (data.foldl (extractStep minLen) (results,current)).2 =
      results ++ (((runs data).modifyHead (current ++ ·)).filter (fun run => decide (minLen ≤ run.length))).map asciiText := by
  induction data generalizing results current with
  | nil =>
    have only : (runs []).modifyHead (current ++ ·) = [current] := by simp [runs]
    rw [only]
    exact keepRun_printable minLen results current printable
  | cons byte rest ih =>
    rw [List.foldl_cons,extractStep,runs_cons]
    by_cases shown : isPrintable byte = true
    · rw [if_pos shown,if_pos shown,ih results (current ++ [byte]) (by
        intro other member
        rcases List.mem_append.mp member with old | last
        · exact printable other old
        · rwa [List.mem_singleton.mp last]),List.modifyHead_modifyHead]
      simp only [Function.comp_def,List.append_assoc,List.singleton_append]
    · have fresh : (runs rest).modifyHead ([] ++ ·) = runs rest := by
        cases runs rest <;> rfl
      rw [if_neg shown,if_neg shown,ih _ [] (fun _ member => by cases member),fresh,
        keepRun_printable minLen results current printable,List.append_assoc,← List.map_append,← List.filter_append]
      simp

theorem extractStrings_runs (data : Bytes) (minLen : Nat) :
    extractStrings data minLen = ((runs data).filter (fun run => decide (minLen ≤ run.length))).map asciiText := by
  have fresh : (runs data).modifyHead ([] ++ ·) = runs data := by
    cases runs data <;> rfl
  have scanned := extract_scanned minLen data [] [] (fun _ member => by cases member)
  rwa [fresh] at scanned

def blanked (data : Bytes) : Text := data.map (fun byte => if isPrintable byte then Char.ofNat byte.toNat else ' ')

theorem join_head (c : Char) (first : Text) (rest : List Text) :
    Text.join " " ((c :: first) :: rest) = c :: Text.join " " (first :: rest) := by
  cases rest <;> rfl

theorem join_empty (first : Text) (rest : List Text) : Text.join " " ([] :: first :: rest) = ' ' :: Text.join " " (first :: rest) := rfl

theorem blanked_runs (data : Bytes) : blanked data = Text.join " " ((runs data).map asciiText) := by
  induction data with
  | nil => rfl
  | cons byte rest ih =>
    obtain ⟨first,others,parts⟩ := List.exists_cons_of_ne_nil (List.splitOnP_ne_nil (fun byte => !isPrintable byte) rest)
    change runs rest = first :: others at parts
    rw [blanked,List.map_cons,← blanked,ih,runs_cons,parts]
    split
    · rw [List.modifyHead_cons,List.map_cons,List.map_cons,asciiText,asciiText,List.map_cons,join_head]
    · rw [List.map_cons,List.map_cons,List.map_cons]
      exact (join_empty _ _).symm

-- No string is lost or made by the two ways of reading the bytes.
theorem found_alike (pattern : Pattern) (avoids : pattern.Avoids ' ') (data : Bytes) (minLen : Nat)
    (solid : 0 < pattern.least) (short : minLen ≤ pattern.least) :
    pattern.findIter (blanked data) = (extractStrings data minLen).flatMap pattern.findIter := by
  rw [blanked_runs,findIter_join pattern avoids solid (by decide) rfl,extractStrings_runs]
  induction runs data with
  | nil => rfl
  | cons run rest ih =>
    rw [List.map_cons,List.flatMap_cons,ih]
    by_cases long : minLen ≤ run.length
    · rw [List.filter_cons_of_pos (by simpa using long)]
      rfl
    · have nothing : pattern.findIter (asciiText run) = [] := by
        apply scan_short
        rw [asciiText,List.length_map]
        omega
      rw [List.filter_cons_of_neg (by simpa using long),nothing]
      rfl

theorem joined_alike (pattern : Pattern) (avoids : pattern.Avoids ' ') (strings : List Text) (solid : 0 < pattern.least) :
    pattern.findIter (Text.join " " strings) = strings.flatMap pattern.findIter :=
  findIter_join pattern avoids solid (by decide) rfl strings

theorem ipv4_avoids : reIpv4.Avoids ' ' := by
  have octet : (between 1 3 digit).Avoids ' ' := ⟨rfl,rfl⟩
  refine inOrder_avoids rfl _ (fun part member => ?_)
  simp only [List.mem_cons,List.not_mem_nil,or_false] at member
  rcases member with rfl | rfl | rfl | rfl
  · rfl
  · exact ⟨octet,rfl⟩
  · exact octet
  · rfl

theorem url_avoids : reUrl.Avoids ' ' := by
  refine inOrder_avoids rfl _ (fun part member => ?_)
  simp only [List.mem_cons,List.not_mem_nil,or_false] at member
  rcases member with rfl | rfl | rfl | rfl
  · exact word_avoids rfl _ (by decide)
  · rfl
  · exact word_avoids rfl _ (by decide)
  · exact ⟨rfl,rfl,Nat.one_pos⟩

theorem ipv4_least : reIpv4.least = 7 := by decide

theorem url_least : reUrl.least = 8 := by decide

theorem mem_distinct (found : List Text) (value : String) : value ∈ distinct found ↔ ∃ text ∈ found, String.ofList text = value := by
  unfold distinct
  rw [List.mem_map]
  simp only [List.mem_dedup]

-- A set of matches in the joined strings is that of the matches in each.
theorem distinct_joined (pattern : Pattern) (avoids : pattern.Avoids ' ') (solid : 0 < pattern.least) (strings : List Text)
    (value : String) : value ∈ distinct (pattern.findIter (Text.join " " strings)) ↔
      ∃ text ∈ strings, ∃ found ∈ pattern.findIter text, String.ofList found = value := by
  rw [mem_distinct,joined_alike pattern avoids strings solid]
  constructor
  · intro ⟨found,member,same⟩
    obtain ⟨text,listed,inside⟩ := List.mem_flatMap.mp member
    exact ⟨text,listed,found,inside,same⟩
  · intro ⟨text,listed,found,inside,same⟩
    exact ⟨found,List.mem_flatMap.mpr ⟨text,listed,inside⟩,same⟩

theorem distinct_alike (pattern : Pattern) (avoids : pattern.Avoids ' ') (solid : 0 < pattern.least) (data : Bytes)
    (minLen : Nat) (short : minLen ≤ pattern.least) :
    distinct (pattern.findIter (blanked data)) = distinct (pattern.findIter (Text.join " " (extractStrings data minLen))) := by
  rw [found_alike pattern avoids data minLen solid short,joined_alike pattern avoids _ solid]

theorem ipv4_solid : 0 < reIpv4.least := ipv4_least ▸ Nat.zero_lt_succ 6

theorem url_solid : 0 < reUrl.least := url_least ▸ Nat.zero_lt_succ 7

theorem extractors_agree (data : Bytes) (minLen : Nat) (short : minLen ≤ 7) :
    let strings := extractStrings data minLen
    (extractIocsFromBytes data).ipAddresses.toFinset = (extractIocs strings).ipAddresses.toFinset ∧
    (extractIocsFromBytes data).urls.toFinset = (extractIocs strings).urls.toFinset ∧
    (∀ address, address ∈ (extractIocs strings).ipAddresses ↔
      ∃ text ∈ strings, ∃ found ∈ reIpv4.findIter text, String.ofList found = address) ∧
    ∀ url, url ∈ (extractIocs strings).urls ↔ ∃ text ∈ strings, ∃ found ∈ reUrl.findIter text, String.ofList found = url := by
  intro strings
  refine ⟨?addresses,?urls,?eachAddress,?eachUrl⟩
  case addresses =>
    exact congrArg List.toFinset (distinct_alike reIpv4 ipv4_avoids ipv4_solid data minLen (by rw [ipv4_least]; exact short))
  case urls =>
    exact congrArg List.toFinset (distinct_alike reUrl url_avoids url_solid data minLen (by
      rw [url_least]
      exact short.trans (by omega)))
  case eachAddress => exact distinct_joined reIpv4 ipv4_avoids ipv4_solid strings
  case eachUrl => exact distinct_joined reUrl url_avoids url_solid strings

-- An address cut by a byte that is not printable, a whole one behind it, and a
-- piece too short to be kept.
def cutBody : Bytes := encode "10.0.0
1.2.3.4		ls".toList

theorem extractors_agree_cut :
    (extractIocsFromBytes cutBody).ipAddresses.toFinset = ["1.2.3.4"].toFinset ∧
    (extractIocs (extractStrings cutBody 6)).ipAddresses.toFinset = ["1.2.3.4"].toFinset := by
  have agree := extractors_agree cutBody 6 (by decide)
  have gateway : (extractIocsFromBytes cutBody).ipAddresses = ["1.2.3.4"] := by decide
  rw [← agree.1,gateway]
  exact ⟨rfl,rfl⟩

end AegisHoneypot.IocAgreement
