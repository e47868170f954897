import OpenLegal.Legal.LawReference
import OpenLegal.Legal.Record

/-! # Resolving law names

A law name is compared by a key that ignores spacing, middle dots and ASCII case. Known abbreviations are expanded
to official titles, also with the suffix of a subordinate instrument.
-/

namespace OpenLegal.Legal

open Rust Rust.Str

/-- Official title and common abbreviations. Titles use the provider's spacing and `ㆍ`. -/
def lawAliases : List (Str × List Str) :=
  [("대한민국헌법", ["헌법"]), ("민사소송법", ["민소법"]), ("형사소송법", ["형소법"]), ("민사집행법", ["민집법"]), ("행정소송법", ["행소법"]),
    ("채무자 회생 및 파산에 관한 법률", ["채무자회생법", "통합도산법"]), ("근로기준법", ["근기법"]), ("산업안전보건법", ["산안법"]),
    ("산업안전보건기준에 관한 규칙", ["산안기준규칙", "안전보건규칙", "산업안전보건기준규칙"]),
    ("중대재해 처벌 등에 관한 법률", ["중대재해처벌법", "중처법", "중대재해법"]), ("산업재해보상보험법", ["산재보험법", "산재법"]), ("고용보험법", ["고보법"]),
    ("근로자퇴직급여 보장법", ["퇴직급여법", "근퇴법"]), ("노동조합 및 노동관계조정법", ["노동조합법", "노조법", "노조법"]),
    ("파견근로자 보호 등에 관한 법률", ["파견법", "파견근로자법"]), ("기간제 및 단시간근로자 보호 등에 관한 법률", ["기간제법"]),
    ("남녀고용평등과 일ㆍ가정 양립 지원에 관한 법률", ["남녀고용평등법", "고평법"]), ("개인정보 보호법", ["개인정보보호법", "개보법", "개인정보법"]),
    ("정보통신망 이용촉진 및 정보보호 등에 관한 법률", ["정보통신망법", "정통망법"]), ("신용정보의 이용 및 보호에 관한 법률", ["신용정보법", "신정법"]),
    ("위치정보의 보호 및 이용 등에 관한 법률", ["위치정보법"]), ("인공지능 발전과 신뢰 기반 조성 등에 관한 기본법", ["인공지능기본법", "AI기본법"]),
    ("공공기관의 정보공개에 관한 법률", ["정보공개법"]), ("부정청탁 및 금품등 수수의 금지에 관한 법률", ["청탁금지법", "김영란법"]),
    ("공직자의 이해충돌 방지법", ["이해충돌방지법"]), ("국가를 당사자로 하는 계약에 관한 법률", ["국가계약법"]),
    ("지방자치단체를 당사자로 하는 계약에 관한 법률", ["지방계약법"]), ("공공기관의 운영에 관한 법률", ["공공기관운영법"]),
    ("독점규제 및 공정거래에 관한 법률", ["공정거래법"]), ("하도급거래 공정화에 관한 법률", ["하도급법"]), ("약관의 규제에 관한 법률", ["약관법", "약관규제법"]),
    ("표시ㆍ광고의 공정화에 관한 법률", ["표시광고법"]), ("가맹사업거래의 공정화에 관한 법률", ["가맹사업법"]),
    ("전자상거래 등에서의 소비자보호에 관한 법률", ["전자상거래법"]), ("부정경쟁방지 및 영업비밀보호에 관한 법률", ["부정경쟁방지법"]),
    ("자본시장과 금융투자업에 관한 법률", ["자본시장법"]), ("금융소비자 보호에 관한 법률", ["금융소비자보호법", "금소법"]),
    ("특정 금융거래정보의 보고 및 이용 등에 관한 법률", ["특정금융정보법", "특금법"]), ("전자금융거래법", ["전금법"]), ("주택임대차보호법", ["주임법"]),
    ("상가건물 임대차보호법", ["상가임대차법", "상임법"]), ("집합건물의 소유 및 관리에 관한 법률", ["집합건물법"]),
    ("부동산 거래신고 등에 관한 법률", ["부동산거래신고법"]), ("국토의 계획 및 이용에 관한 법률", ["국토계획법"]),
    ("도시 및 주거환경정비법", ["도시정비법", "도정법"]), ("공익사업을 위한 토지 등의 취득 및 보상에 관한 법률", ["토지보상법"]), ("건설산업기본법", ["건산법"]),
    ("소방시설 설치 및 관리에 관한 법률", ["소방시설법"]), ("화학물질관리법", ["화관법"]), ("화학물질의 등록 및 평가 등에 관한 법률", ["화평법"]),
    ("감염병의 예방 및 관리에 관한 법률", ["감염병예방법"]), ("마약류 관리에 관한 법률", ["마약류관리법"]), ("국민건강보험법", ["건보법"]),
    ("국민기초생활 보장법", ["기초생활보장법"]), ("장애인차별금지 및 권리구제 등에 관한 법률", ["장애인차별금지법"]), ("국세기본법", ["국기법"]),
    ("부가가치세법", ["부가세법"]), ("조세특례제한법", ["조특법"]), ("지방세특례제한법", ["지특법"]),
    ("자유무역협정의 이행을 위한 관세법의 특례에 관한 법률", ["FTA관세특례법", "FTA특례법"]), ("도로교통법", ["도교법"]), ("교통사고처리 특례법", ["교특법"]),
    ("자동차손해배상 보장법", ["자배법"]), ("여객자동차 운수사업법", ["여객자동차법"]), ("화물자동차 운수사업법", ["화물자동차법"]),
    ("특정범죄 가중처벌 등에 관한 법률", ["특정범죄가중법", "특가법"]), ("특정경제범죄 가중처벌 등에 관한 법률", ["특정경제범죄법", "특경법"]),
    ("성폭력범죄의 처벌 등에 관한 특례법", ["성폭력처벌법"]), ("아동ㆍ청소년의 성보호에 관한 법률", ["청소년성보호법", "아청법"]),
    ("아동학대범죄의 처벌 등에 관한 특례법", ["아동학대처벌법"]), ("가정폭력범죄의 처벌 등에 관한 특례법", ["가정폭력처벌법"]),
    ("스토킹범죄의 처벌 등에 관한 법률", ["스토킹처벌법"]), ("성매매알선 등 행위의 처벌에 관한 법률", ["성매매처벌법"]),
    ("폭력행위 등 처벌에 관한 법률", ["폭력행위처벌법", "폭처법"]), ("학교폭력예방 및 대책에 관한 법률", ["학교폭력예방법", "학폭법"]),
    ("범죄수익은닉의 규제 및 처벌 등에 관한 법률", ["범죄수익은닉규제법"]), ("형의 집행 및 수용자의 처우에 관한 법률", ["형집행법"]),
    ("가족관계의 등록 등에 관한 법률", ["가족관계등록법"])].map fun (title, aliases) => (title.toList, aliases.map String.toList)

/-- Comparison key that ignores spacing, middle dots and ASCII case. -/
def nameKey (value : Str) : Str := toAsciiLowercase (value.filter fun c => !isWhitespace c && !decide (c ∈ middleDots))

/-- A title of the table if the key is its own, or one of its abbreviations. -/
def entryTitle (key : Str) : Str × List Str → Option (Str × Option Str)
  | (title, aliases) =>
    if nameKey title = key then some (title, none)
    else (aliases.find? (nameKey · == key)).map fun short => (title, some short)

/-- The title with a key, with its abbreviation if the key is one. -/
def aliasTitle (key : Str) : Option (Str × Option Str) := lawAliases.findSome? (entryTitle key)

structure LawNameResolution where
  input : Str
  normalized : Str
  resolved : Str
  matchedAlias : Option Str
deriving DecidableEq, Repr

/-- A title for the key, or one for the key without the suffix of a subordinate instrument. -/
def expandedTitle (key : Str) : Option (Str × Option Str) :=
  (aliasTitle key).or (suffixes.findSome? fun suffix => do
    let base ← stripSuffixStr suffix key
    if base.isEmpty then none
    else
      let (title, short) ← aliasTitle base
      some (title ++ ' ' :: suffix, short))

/-- Expand a known abbreviation, including `약칭 시행령` and `약칭 시행규칙` forms. Unknown names are returned
normalized but otherwise unchanged. -/
def resolveLawName (input : Str) : LawNameResolution :=
  let normalized := normalizeLawName input
  match expandedTitle (nameKey normalized) with
  | some (resolved, short) => ⟨input, normalized, resolved, short⟩
  | none => ⟨input, normalized, normalized, none⟩

/-! ## Settled names -/

/-- The name between the brackets. -/
def lawNameCore (input : Str) : Str := trim (trimMatches isQuote (trim input))

/-- Neither end is a bracket or a quote. -/
structure Unquoted (s : Str) : Prop where
  first : ∀ c ∈ s.head?, isQuote c = false
  last : ∀ c ∈ s.getLast?, isQuote c = false

theorem officialDot_dot {c : Char} (dot : c ∈ middleDots) : officialDot c = 'ㆍ' := if_pos dot

theorem officialDot_plain {c : Char} (plain : c ∉ middleDots) : officialDot c = c := if_neg plain

@[simp] theorem officialDot_officialDot (c : Char) : officialDot (officialDot c) = officialDot c := by
  by_cases dot : c ∈ middleDots
  · rw [officialDot_dot dot]
    decide
  · rw [officialDot_plain dot, officialDot_plain dot]

theorem middleDots_visible : middleDots.all (fun c => !isWhitespace c && !isQuote c) = true := by
  simp [middleDots, isWhitespace, isQuote]

/-- The official dot is no white space and no quote, as every variant. -/
theorem officialDot_class (c : Char) :
    isWhitespace (officialDot c) = isWhitespace c ∧ isQuote (officialDot c) = isQuote c := by
  by_cases dot : c ∈ middleDots
  · have official := List.all_eq_true.mp middleDots_visible 'ㆍ' (by decide)
    have own := List.all_eq_true.mp middleDots_visible c dot
    simp only [Bool.and_eq_true, Bool.not_eq_true'] at official own
    rw [officialDot_dot dot, official.1, official.2, own.1, own.2]
    exact ⟨rfl, rfl⟩
  · rw [officialDot_plain dot]
    exact ⟨rfl, rfl⟩

theorem isWord_official {word : Str} (shape : IsWord word) : IsWord (word.map officialDot) := by
  refine ⟨by simpa using shape.1, List.forall_mem_map.mpr fun c member => ?_⟩
  rw [(officialDot_class c).1]
  exact shape.2 c member

theorem map_joinWords {f : Char → Char} (space : f ' ' = ' ') (words : List Str) :
    (joinWords words).map f = joinWords (words.map (List.map f)) := by
  cases words with
  | nil => rfl
  | cons word rest =>
    induction rest generalizing word with
    | nil => simp [joinWords, List.intercalate]
    | cons next rest ih =>
      rw [List.map_cons, List.map_cons, joinWords_cons, joinWords_cons, List.map_append, List.map_cons, space, ih next]
      rfl

theorem collapse_length (out : Str) (space : Bool) (s : Str) :
    (collapse out space s).length ≤ out.length + (if space then 1 else 0) + s.length := by
  induction s generalizing out space with
  | nil =>
    rw [collapse]
    omega
  | cons c rest ih =>
    rw [collapse, List.length_cons]
    by_cases blank : isWhitespace c = true
    · rw [if_pos blank]
      have asked : (if (!out.isEmpty) = true then 1 else 0) ≤ 1 := by split_ifs <;> omega
      have rest := ih out (!out.isEmpty)
      omega
    · rw [if_neg blank]
      have kept : (if space = true then [' '] else []).length = if space = true then 1 else 0 := by split_ifs <;> rfl
      have rest := ih (out ++ (if space = true then [' '] else []) ++ [officialDot c]) false
      rw [List.length_append, List.length_append, kept, List.length_singleton, if_neg Bool.false_ne_true] at rest
      omega

theorem Unquoted.trimMatches {s : Str} (unquoted : Unquoted s) : trimMatches isQuote s = s := by
  rw [Legal.trimMatches, List.dropWhile_eq_self_iff.mpr, List.rdropWhile_eq_self_iff.mpr]
  · intro nonempty
    rw [unquoted.last _ (List.getLast?_eq_some_getLast nonempty)]
    exact Bool.false_ne_true
  · intro positive
    rw [unquoted.first _ (by rw [List.head?_eq_getElem?]; exact List.getElem?_eq_getElem positive)]
    exact Bool.false_ne_true

/-- A quote at an end is taken. -/
theorem trimMatches_length {s : Str} (quoted : ¬ Unquoted s) : (trimMatches isQuote s).length < s.length := by
  have shorter := (List.rdropWhile_prefix isQuote (s.dropWhile isQuote)).length_le
  have suffix := List.dropWhile_suffix (l := s) isQuote
  refine lt_of_le_of_ne (shorter.trans suffix.length_le) fun same => quoted ?_
  have whole : s.dropWhile isQuote = s := suffix.eq_of_length_le (same ▸ shorter)
  rw [Legal.trimMatches, whole] at same
  have kept : s.rdropWhile isQuote = s := (List.rdropWhile_prefix isQuote s).eq_of_length same
  refine ⟨fun c first => ?_, fun c last => ?_⟩
  · have stops := List.head?_dropWhile_not isQuote s
    rw [whole, Option.mem_def.mp first] at stops
    simpa using stops
  · have nonempty : s ≠ [] := List.ne_nil_of_mem (List.mem_of_getLast? last)
    have stops := List.rdropWhile_eq_self_iff.mp kept nonempty
    rw [List.getLast?_eq_some_getLast nonempty] at last
    cases last
    simpa using stops

theorem trim_length (s : Str) : (trim s).length ≤ s.length := by
  rw [trim, List.length_reverse]
  refine (List.dropWhile_suffix _).length_le.trans ?_
  rw [List.length_reverse]
  exact (List.dropWhile_suffix _).length_le

/-! ## Normalizing twice -/

/-- A trimmed name keeps its ends, up to middle dots, and is written as itself the second time. -/
structure WrittenAs (core name : Str) : Prop where
  first : name.head? = core.head?.map officialDot
  last : name.getLast? = core.getLast?.map officialDot
  settled : collapse [] false name = name

theorem getLast_joinWords {word tail : Str} {words : List Str} (shape : IsWord word) (spaced : Spaced tail words) :
    (joinWords (word :: words)).getLast? = (word ++ tail).getLast? := by
  induction spaced generalizing word with
  | nil => simp [joinWords, List.intercalate]
  | @cons gap next tail words blank nonempty shape' more ih =>
    have started : joinWords (next :: words) ≠ [] := by
      intro empty
      have same := ih shape'
      rw [empty] at same
      exact absurd (List.getLast?_eq_none_iff.mp same.symm) (by simp [shape'.1])
    rw [joinWords_cons, List.getLast?_append_of_ne_nil _ (List.cons_ne_nil _ _), List.getLast?_cons_of_ne_nil started,
      ih shape', ← List.append_assoc word gap]
    exact (List.getLast?_append_of_ne_nil (word ++ gap) (by simp [shape'.1])).symm

theorem collapse_written {core : Str} (trimmed : Trimmed core) : WrittenAs core (collapse [] false core) := by
  rcases eq_or_ne core [] with rfl | nonempty
  · exact ⟨rfl, rfl, rfl⟩
  · obtain ⟨word, tail, words, rfl, shape, spaced⟩ := exists_words trimmed.trim_eq_self nonempty
    have name : collapse [] false (word ++ tail) = (joinWords (word :: words)).map officialDot :=
      collapse_spaced [] false shape spaced
    have shapes : ∀ w ∈ word :: words, IsWord w :=
      List.forall_mem_cons.mpr ⟨shape, fun w member => (spaced.words w member).1⟩
    obtain ⟨tail', joined, -⟩ := @spaced_joinWords word words fun w member => shapes w (List.mem_cons_of_mem _ member)
    rw [name]
    refine ⟨?_, ?_, ?_⟩
    · rw [List.head?_map, joined, List.head?_append_of_ne_nil _ shape.1, List.head?_append_of_ne_nil _ shape.1]
    · rw [List.getLast?_map, getLast_joinWords shape spaced]
    · rw [map_joinWords (by decide), List.map_cons, collapse_joinWords [] false]
      · rw [← List.map_cons, ← map_joinWords (by decide)]
        simp
      · rw [← List.map_cons]
        exact List.forall_mem_map.mpr fun w member => isWord_official (shapes w member)

namespace WrittenAs

variable {core name : Str} (written : WrittenAs core name)
include written

theorem trimmed (trimmed : Trimmed core) : Trimmed name where
  first := by
    rw [written.first]
    intro c found
    obtain ⟨d, first, rfl⟩ := Option.map_eq_some_iff.mp found
    exact (officialDot_class d).1.trans (trimmed.first d first)
  last := by
    rw [written.last]
    intro c found
    obtain ⟨d, last, rfl⟩ := Option.map_eq_some_iff.mp found
    exact (officialDot_class d).1.trans (trimmed.last d last)

theorem unquoted_iff : Unquoted name ↔ Unquoted core := by
  constructor
  · intro unquoted
    refine ⟨fun c first => ?_, fun c last => ?_⟩
    · exact (officialDot_class c).2.symm.trans (unquoted.first _ (by rw [written.first, Option.mem_def.mp first]; rfl))
    · exact (officialDot_class c).2.symm.trans (unquoted.last _ (by rw [written.last, Option.mem_def.mp last]; rfl))
  · intro unquoted
    refine ⟨fun c found => ?_, fun c found => ?_⟩
    · rw [written.first] at found
      obtain ⟨d, first, rfl⟩ := Option.map_eq_some_iff.mp found
      exact (officialDot_class d).2.trans (unquoted.first d first)
    · rw [written.last] at found
      obtain ⟨d, last, rfl⟩ := Option.map_eq_some_iff.mp found
      exact (officialDot_class d).2.trans (unquoted.last d last)

end WrittenAs

theorem normalizeLawName_eq (input : Str) : normalizeLawName input = collapse [] false (lawNameCore input) := rfl

/-- A trimmed name without quotes at its ends is only collapsed. -/
theorem lawNameCore_self {name : Str} (trimmed : Trimmed name) (unquoted : Unquoted name) : lawNameCore name = name := by
  rw [lawNameCore, trimmed.trim_eq_self, unquoted.trimMatches, trimmed.trim_eq_self]

/-- The second normalization finds nothing to do exactly if the first has left no bracket at an end. -/
theorem normalizeLawName_twice (input : Str) :
    normalizeLawName (normalizeLawName input) = normalizeLawName input ↔ Unquoted (lawNameCore input) := by
  have trimmed : Trimmed (lawNameCore input) := trimmed_trim _
  have written := collapse_written trimmed
  have name := written.trimmed trimmed
  rw [← written.unquoted_iff, normalizeLawName_eq (normalizeLawName input), ← normalizeLawName_eq input]
  rw [← normalizeLawName_eq] at written name
  constructor
  · intro same
    by_contra quoted
    have shorter := trimMatches_length quoted
    have core : (lawNameCore (normalizeLawName input)).length ≤ (trimMatches isQuote (normalizeLawName input)).length := by
      rw [lawNameCore, name.trim_eq_self]
      exact trim_length _
    have length := collapse_length [] false (lawNameCore (normalizeLawName input))
    rw [same, List.length_nil, if_neg Bool.false_ne_true] at length
    omega
  · intro unquoted
    rw [lawNameCore_self name unquoted, written.settled]

/-! ## The table -/

/-- The keys that stand for a title. -/
def titleKeys (entry : Str × List Str) : List Str := nameKey entry.1 :: entry.2.map nameKey

/-- A number for a text, which is compared faster. -/
def fingerprint (text : Str) : ℕ := text.foldl (fun n c => n * 2 ^ 21 + c.toNat) 0

/-- The words of an official title: without quotes, and with the official dot only. -/
def officialWords (words : List Str) : Bool :=
  !words.isEmpty && words.all fun word =>
    !word.isEmpty && word.all fun c => !isWhitespace c && !isQuote c && officialDot c == c

private theorem table_sound :
    (lawAliases.all fun entry =>
      officialWords (splitWhitespace entry.1) && joinWords (splitWhitespace entry.1) == entry.1 &&
        !(nameKey entry.1).isEmpty && (titleKeys entry).all fun key => suffixes.all fun suffix => !suffix.isSuffixOf key) = true ∧
    (lawAliases.map fun entry => (titleKeys entry).map fingerprint).Pairwise fun first second =>
      ∀ n ∈ second.head?, first.all (· != n) = true := by
  simp only [lawAliases, List.map_cons, List.map_nil]
  -- literals are taken apart here, where it is cheap
  repeat rw [String.toList_ofList]
  constructor
  · decide +kernel
  · decide +kernel

/-- Official words are written as they are. -/
theorem normalizeLawName_official {words : List Str} (official : officialWords words = true) :
    normalizeLawName (joinWords words) = joinWords words := by
  simp only [officialWords, Bool.and_eq_true, Bool.not_eq_true', List.isEmpty_eq_false_iff, List.all_eq_true, beq_iff_eq]
    at official
  obtain ⟨nonempty, shapes⟩ := official
  obtain ⟨word, rest, rfl⟩ := List.exists_cons_of_ne_nil nonempty
  have words (w : Str) (member : w ∈ word :: rest) : IsWord w :=
    ⟨(shapes w member).1, fun c inside => ((shapes w member).2 c inside).1.1⟩
  have plain (w : Str) (member : w ∈ word :: rest) : w ≠ [] ∧ ∀ c ∈ w, isWhitespace c = false ∧ isQuote c = false :=
    ⟨(shapes w member).1, fun c inside => ((shapes w member).2 c inside).1⟩
  have first := @head_joinWords _ word rest (plain word List.mem_cons_self).1 (plain word List.mem_cons_self).2
  have last := last_joinWords plain
  have core : lawNameCore (joinWords (word :: rest)) = joinWords (word :: rest) :=
    lawNameCore_self ⟨fun c found => (first c found).1, fun c found => (last c found).1⟩
      ⟨fun c found => (first c found).2, fun c found => (last c found).2⟩
  have dots : (word :: rest).map (List.map officialDot) = word :: rest := by
    refine (List.map_congr_left fun w member => ?_).trans (List.map_id _)
    exact (List.map_congr_left fun c inside => ((shapes w member).2 c inside).2).trans (List.map_id _)
  rw [normalizeLawName_eq, core, collapse_joinWords [] false words, map_joinWords (by decide), dots]
  rfl

/-! ## Titles stand for themselves -/

theorem nameKey_append (a b : Str) : nameKey (a ++ b) = nameKey a ++ nameKey b := by
  simp [nameKey, toAsciiLowercase]

/-- A suffix is its own key and an official word. -/
theorem suffix_official : ∀ suffix ∈ suffixes, nameKey (' ' :: suffix) = suffix ∧ officialWords [suffix] = true := by
  decide +kernel

theorem joinWords_concat {words : List Str} (nonempty : words ≠ []) (last : Str) :
    joinWords (words ++ [last]) = joinWords words ++ ' ' :: last := by
  obtain ⟨word, rest, rfl⟩ := List.exists_cons_of_ne_nil nonempty
  induction rest generalizing word with
  | nil => simp [joinWords, List.intercalate]
  | cons next rest ih =>
    rw [List.cons_append, List.cons_append, joinWords_cons, joinWords_cons, ← List.cons_append,
      ih next (List.cons_ne_nil _ _)]
    simp

variable {entry : Str × List Str} (member : entry ∈ lawAliases)
include member

theorem entry_sound : officialWords (splitWhitespace entry.1) = true ∧ joinWords (splitWhitespace entry.1) = entry.1 ∧
    nameKey entry.1 ≠ [] ∧ ∀ key ∈ titleKeys entry, ∀ suffix ∈ suffixes, suffix.isSuffixOf key = false := by
  have sound := List.all_eq_true.mp table_sound.1 entry member
  simp only [Bool.and_eq_true, beq_iff_eq, Bool.not_eq_true', List.isEmpty_eq_false_iff] at sound
  refine ⟨sound.1.1.1, sound.1.1.2, sound.1.2, fun key inside suffix known => ?_⟩
  simpa using List.all_eq_true.mp (List.all_eq_true.mp sound.2 key inside) suffix known

theorem normalizeLawName_title : normalizeLawName entry.1 = entry.1 := by
  obtain ⟨official, joined, -⟩ := entry_sound member
  rw [← joined]
  exact normalizeLawName_official official

theorem normalizeLawName_subordinate {suffix : Str} (known : suffix ∈ suffixes) :
    normalizeLawName (entry.1 ++ ' ' :: suffix) = entry.1 ++ ' ' :: suffix := by
  obtain ⟨official, joined, -⟩ := entry_sound member
  have nonempty : splitWhitespace entry.1 ≠ [] := by
    intro empty
    rw [empty] at official
    cases official
  have both : officialWords (splitWhitespace entry.1 ++ [suffix]) = true := by
    have last := (suffix_official suffix known).2
    simp only [officialWords, List.all_append, Bool.and_eq_true] at official last ⊢
    exact ⟨by simp, official.2, last.2⟩
  have settled := normalizeLawName_official both
  rwa [joinWords_concat nonempty, joined] at settled

omit member in
theorem entryTitle_eq_some {key title : Str} {short : Option Str} (found : entryTitle key entry = some (title, short)) :
    title = entry.1 ∧ key ∈ titleKeys entry := by
  rw [entryTitle] at found
  split_ifs at found with own
  · cases found
    exact ⟨rfl, own ▸ List.mem_cons_self⟩
  · obtain ⟨name, first, same⟩ := Option.map_eq_some_iff.mp found
    cases same
    have key' : nameKey name = key := by simpa using List.find?_some first
    exact ⟨rfl, List.mem_cons_of_mem _ (List.mem_map.mpr ⟨name, List.mem_of_find?_eq_some first, key'⟩)⟩

/-- An earlier title is not found for the key of a later one. -/
theorem aliasTitle_title : aliasTitle (nameKey entry.1) = some (entry.1, none) := by
  obtain ⟨before, after, split⟩ := List.append_of_mem member
  have apart := table_sound.2
  rw [split, List.map_append, List.pairwise_append] at apart
  have missed : before.findSome? (entryTitle (nameKey entry.1)) = none := by
    rw [List.findSome?_eq_none_iff]
    intro earlier inside
    by_contra found
    obtain ⟨⟨title, short⟩, found⟩ := Option.ne_none_iff_exists'.mp found
    have differs := apart.2.2 _ (List.mem_map_of_mem inside) _ (List.mem_map_of_mem List.mem_cons_self)
      (fingerprint (nameKey entry.1)) (by simp [titleKeys])
    have same := List.all_eq_true.mp differs _ (List.mem_map_of_mem (entryTitle_eq_some found).2)
    simp at same
  rw [aliasTitle, split, List.findSome?_append, missed, Option.none_or, List.findSome?_cons, entryTitle, if_pos rfl]

omit member in
theorem aliasTitle_eq_some {key title : Str} {short : Option Str} (found : aliasTitle key = some (title, short)) :
    ∃ entry ∈ lawAliases, title = entry.1 ∧ key ∈ titleKeys entry := by
  obtain ⟨entry, member, found⟩ := List.exists_of_findSome?_eq_some found
  exact ⟨entry, member, entryTitle_eq_some found⟩

omit member in
/-- No title and no abbreviation ends with the suffix of a subordinate instrument. -/
theorem aliasTitle_suffix (base : Str) {suffix : Str} (known : suffix ∈ suffixes) : aliasTitle (base ++ suffix) = none := by
  by_contra found
  obtain ⟨⟨title, short⟩, found⟩ := Option.ne_none_iff_exists'.mp found
  obtain ⟨entry, member, -, inside⟩ := aliasTitle_eq_some found
  have differs := (entry_sound member).2.2.2 _ inside suffix known
  rw [List.isSuffixOf_iff_suffix.mpr (List.suffix_append base suffix)] at differs
  cases differs

theorem expandedTitle_title : expandedTitle (nameKey entry.1) = some (entry.1, none) := by
  rw [expandedTitle, aliasTitle_title member]
  rfl

theorem expandedTitle_subordinate {suffix : Str} (known : suffix ∈ suffixes) :
    expandedTitle (nameKey (entry.1 ++ ' ' :: suffix)) = some (entry.1 ++ ' ' :: suffix, none) := by
  have nonempty : (nameKey entry.1).isEmpty = false := List.isEmpty_eq_false_iff.mpr (entry_sound member).2.2.1
  have stripped (suffix : Str) : stripSuffixStr suffix (nameKey entry.1 ++ suffix) = some (nameKey entry.1) := by
    rw [stripSuffixStr, if_pos (List.isSuffixOf_iff_suffix.mpr (List.suffix_append _ _))]
    simp
  have other : stripSuffixStr "시행규칙".toList (nameKey entry.1 ++ "시행령".toList) = none := by
    refine if_neg fun ends => ?_
    obtain ⟨base, same⟩ := List.isSuffixOf_iff_suffix.mp ends
    have last := congrArg List.getLast? same
    simp at last
  rw [expandedTitle, nameKey_append, (suffix_official suffix known).1, aliasTitle_suffix _ known, Option.none_or]
  rcases List.mem_pair.mp known with rfl | rfl
  · simp only [suffixes, List.map_cons, List.map_nil, List.findSome?_cons, stripped, Option.bind_eq_bind, Option.bind_some,
      nonempty, Bool.false_eq_true, if_false, aliasTitle_title member]
  · simp only [suffixes, List.map_cons, List.map_nil, List.findSome?_cons, other, stripped, Option.bind_eq_bind,
      Option.bind_some, Option.bind_none, nonempty, Bool.false_eq_true, if_false, aliasTitle_title member]

omit member in
/-- A name that is found is a title, or a subordinate instrument of one, and stands for itself. -/
theorem resolveLawName_expanded {key resolved : Str} {short : Option Str} (found : expandedTitle key = some (resolved, short)) :
    (resolveLawName resolved).resolved = resolved := by
  rcases Option.or_eq_some_iff.mp found with found | ⟨-, found⟩
  · obtain ⟨entry, member, rfl, -⟩ := aliasTitle_eq_some found
    simp only [resolveLawName, normalizeLawName_title member, expandedTitle_title member]
  · obtain ⟨suffix, known, found⟩ := List.exists_of_findSome?_eq_some found
    simp only [Option.bind_eq_bind, Option.bind_eq_some_iff] at found
    obtain ⟨base, -, found⟩ := found
    split_ifs at found
    simp only [Option.bind_eq_some_iff, Option.some.injEq, Prod.mk.injEq] at found
    obtain ⟨⟨title, name⟩, titled, rfl, -⟩ := found
    obtain ⟨entry, member, rfl, -⟩ := aliasTitle_eq_some titled
    simp only [resolveLawName, normalizeLawName_subordinate member known, expandedTitle_subordinate member known]

/-! ## Normalized names resolve alike -/

omit member in
/-- Names settle, in themselves and in what they resolve to, exactly if one layer of brackets is all there is. -/
theorem law_names_settle_iff (input : Str) :
    (normalizeLawName (normalizeLawName input) = normalizeLawName input ∧
      (resolveLawName (resolveLawName input).resolved).resolved = (resolveLawName input).resolved ∧
      (resolveLawName (normalizeLawName input)).resolved = (resolveLawName input).resolved) ↔
    Unquoted (lawNameCore input) := by
  rw [← normalizeLawName_twice]
  refine ⟨fun ⟨settled, _⟩ => settled, fun settled => ⟨settled, ?_, ?_⟩⟩
  · cases found : expandedTitle (nameKey (normalizeLawName input)) with
    | none => simp only [resolveLawName, found, settled]
    | some expanded =>
      have stands := resolveLawName_expanded found
      rwa [show expanded.1 = (resolveLawName input).resolved by simp only [resolveLawName, found]] at stands
  · rw [resolveLawName, resolveLawName, settled]
    cases expandedTitle (nameKey (normalizeLawName input)) with
    | none => rfl
    | some _ => rfl

omit member in
/-- The second bracket of a name is taken only by the second normalization. -/
theorem law_name_layered : ¬ ∀ input : Str, normalizeLawName (normalizeLawName input) = normalizeLawName input ∧
    (resolveLawName (resolveLawName input).resolved).resolved = (resolveLawName input).resolved := by
  intro settles
  have same := (settles ['「', ' ', '「', '민', '법']).1
  revert same
  decide +kernel

end OpenLegal.Legal
