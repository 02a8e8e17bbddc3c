import AegisHoneypot.AddressText
import AegisHoneypot.BoundedStore
import AegisHoneypot.Library.FloatText
import AegisHoneypot.Library.Markup

-- The cell of the live feed that says what an event was: text of an attacker put
-- into markup that the page makes.
namespace AegisHoneypot.FeedMarkup
open Utf16Text Markup FloatText AddressText BoundedStore

-- A string of the page, and one that `JSON.parse` made of a string of an event.
def units (text : String) : Units := ofText text.toList

def escapeUnit (c : UInt16) : Units :=
  if c = 0x26 then units "&amp;"
  else if c = 0x3c then units "&lt;"
  else if c = 0x3e then units "&gt;"
  else if c = 0x22 then units "&quot;"
  else if c = 0x27 then units "&#39;"
  else [c]

def escapeHtml (s : Units) : Units := s.flatMap escapeUnit

def number (n : Nat) : Units := ofText (numberText n)

-- The marks that `markNovelty` leaves on an event.
structure Novelty where
  newCommand : Bool
  newUsername : Bool
  newPassword : Bool
  deriving DecidableEq, Repr

def authMethodName : AuthMethod → String
  | .password => "password"
  | .publicKey => "public_key"

-- A duration that is no number is `null` on the wire, and `toFixed` throws on it.
def eventDetail (novelty : Novelty) : TelemetryEvent → Option Units
  | .sessionStart ev =>
    some (units "session <code><a href=\"#\" class=\"session-link\" data-id=\"" ++ escapeHtml (units ev.sessionId) ++
      units "\">" ++ escapeHtml (units ev.sessionId) ++ units "</a></code> opened on port " ++ number ev.port.toNat)
  | .sessionEnd ev =>
    if ev.durationSecs.isFinite then
      some (units "session <code><a href=\"#\" class=\"session-link\" data-id=\"" ++ escapeHtml (units ev.sessionId) ++
        units "\">" ++ escapeHtml (units ev.sessionId) ++ units "</a></code> closed after " ++
        ofText (toFixedOne ev.durationSecs) ++ units "s")
    else none
  | .credentialHarvest ev =>
    let userBadge := if novelty.newUsername then units "<span class=\"new-badge\">NEW USER</span>" else []
    let passBadge := if novelty.newPassword then units "<span class=\"new-badge\">NEW PASS</span>" else []
    some (units "<b>" ++ escapeHtml (units ev.username) ++ units "</b>" ++ userBadge ++ units " / <b>" ++
      escapeHtml (units (ev.password.getD "")) ++ units "</b>" ++ passBadge ++ units " (" ++
      units (authMethodName ev.authMethod) ++ units ")")
  | .commandRun ev =>
    some (units "<code>" ++ escapeHtml (units ev.command) ++ units "</code>" ++
      if novelty.newCommand then units "<span class=\"new-badge\">NEW</span>" else [])
  | .payloadCaptured ev =>
    some (units "<code>" ++ escapeHtml ((units ev.sha256).take 16) ++ units "…</code> (" ++ number ev.sizeBytes ++
      units "B) from " ++ escapeHtml (units (ev.sourceUrl.getD "unknown")))
  | .syscallExecve ev =>
    some (units "pid " ++ number ev.pid.toNat ++ units ": " ++ escapeHtml (units ev.filename) ++ units " " ++
      escapeHtml (ofText (Text.join " " (ev.argv.map String.toList))))
  | .syscallConnect ev =>
    some (units "pid " ++ number ev.pid.toNat ++ units " &rarr; " ++ escapeHtml (ofText (toText ev.destIp)) ++ units ":" ++
      number ev.destPort.toNat)
  | .syscallMemfdCreate ev =>
    some (units "pid " ++ number ev.pid.toNat ++ units " created fileless memfd '" ++ escapeHtml (units ev.name) ++ units "'")

section Escaping
variable {references : NamedReferences} {inAttribute : Bool}

-- One of the five references, or a unit that needs none.
theorem escapeUnit_cases (c : UInt16) :
    (c = 0x26 ∧ escapeUnit c = units "&amp;") ∨ (c = 0x3c ∧ escapeUnit c = units "&lt;") ∨
    (c = 0x3e ∧ escapeUnit c = units "&gt;") ∨ (c = 0x22 ∧ escapeUnit c = units "&quot;") ∨
    (c = 0x27 ∧ escapeUnit c = units "&#39;") ∨ (c ≠ 0x26 ∧ c ≠ 0x3c ∧ c ≠ 0x22 ∧ escapeUnit c = [c]) := by
  unfold escapeUnit
  by_cases ampersand : c = 0x26
  · exact Or.inl ⟨ampersand,if_pos ampersand⟩
  · refine Or.inr ?_
    rw [if_neg ampersand]
    by_cases less : c = 0x3c
    · exact Or.inl ⟨less,if_pos less⟩
    · refine Or.inr ?_
      rw [if_neg less]
      by_cases greater : c = 0x3e
      · exact Or.inl ⟨greater,if_pos greater⟩
      · refine Or.inr ?_
        rw [if_neg greater]
        by_cases quotation : c = 0x22
        · exact Or.inl ⟨quotation,if_pos quotation⟩
        · refine Or.inr ?_
          rw [if_neg quotation]
          by_cases apostrophe : c = 0x27
          · exact Or.inl ⟨apostrophe,if_pos apostrophe⟩
          · exact Or.inr ⟨ampersand,less,quotation,if_neg apostrophe⟩

theorem escapeUnit_plain (c : UInt16) : 0x3c ∉ escapeUnit c ∧ 0x22 ∉ escapeUnit c := by
  rcases escapeUnit_cases c with ⟨_,made⟩ | ⟨_,made⟩ | ⟨_,made⟩ | ⟨_,made⟩ | ⟨_,made⟩ | ⟨_,less,quotation,made⟩
  · rw [made]; decide
  · rw [made]; decide
  · rw [made]; decide
  · rw [made]; decide
  · rw [made]; decide
  · rw [made]
    exact ⟨by simpa using Ne.symm less,by simpa using Ne.symm quotation⟩

theorem escapeHtml_free (unit : UInt16) (free : ∀ c, unit ∉ escapeUnit c) (s : Units) : unit ∉ escapeHtml s := by
  intro member
  obtain ⟨c,_,inside⟩ := List.mem_flatMap.mp member
  exact free c inside

theorem escapeHtml_plain (s : Units) : 0x3c ∉ escapeHtml s ∧ 0x22 ∉ escapeHtml s :=
  ⟨escapeHtml_free 0x3c (fun c => (escapeUnit_plain c).1) s,escapeHtml_free 0x22 (fun c => (escapeUnit_plain c).2) s⟩

theorem means_unit (c : UInt16) : Means references inAttribute (escapeUnit c) [c] := by
  rcases escapeUnit_cases c with ⟨rfl,made⟩ | ⟨rfl,made⟩ | ⟨rfl,made⟩ | ⟨rfl,made⟩ | ⟨rfl,made⟩ | ⟨ampersand,_,_,made⟩
  · rw [made]
    exact means_named (units "amp") _ references.ampersand (fun _ => rfl)
  · rw [made]
    exact means_named (units "lt") _ references.less (fun _ => rfl)
  · rw [made]
    exact means_named (units "gt") _ references.greater (fun _ => rfl)
  · rw [made]
    exact means_named (units "quot") _ references.quotation (fun _ => rfl)
  · rw [made]
    exact means_reference (units "#39;") _ (fun _ => rfl)
  · rw [made]
    exact means_plain [c] (by simpa using Ne.symm ampersand)

theorem means_escaped (s : Units) : Means references inAttribute (escapeHtml s) s := by
  induction s with
  | nil => exact fun _ => rfl
  | cons c rest ih => exact (means_unit c).append ih

end Escaping

-- The elements of a cell, and what they hold.
def opened (name : String) : Tag := ⟨false,units name,[]⟩
def closed (name : String) : Tag := ⟨true,units name,[]⟩
def link (id : Units) : Tag :=
  ⟨false,units "a",[(units "href",units "#"),(units "class",units "session-link"),(units "data-id",id)]⟩
def badgeTag : Tag := ⟨false,units "span",[(units "class",units "new-badge")]⟩

def element (name : String) (text : Units) : List Token := .tag (opened name) :: characters text ++ [.tag (closed name)]

def sessionLink (id : Units) : List Token :=
  [.tag (opened "code"),.tag (link id)] ++ characters id ++ [.tag (closed "a"),.tag (closed "code")]

def badge (fresh : Bool) (label : String) : List Token :=
  if fresh then .tag badgeTag :: characters (units label) ++ [.tag (closed "span")] else []

def markup (novelty : Novelty) : TelemetryEvent → List Token
  | .sessionStart ev =>
    characters (units "session ") ++ sessionLink (units ev.sessionId) ++
      characters (units " opened on port " ++ number ev.port.toNat)
  | .sessionEnd ev =>
    characters (units "session ") ++ sessionLink (units ev.sessionId) ++
      characters (units " closed after " ++ ofText (toFixedOne ev.durationSecs) ++ units "s")
  | .credentialHarvest ev =>
    element "b" (units ev.username) ++ badge novelty.newUsername "NEW USER" ++ characters (units " / ") ++
      element "b" (units (ev.password.getD "")) ++ badge novelty.newPassword "NEW PASS" ++
      characters (units " (" ++ units (authMethodName ev.authMethod) ++ units ")")
  | .commandRun ev => element "code" (units ev.command) ++ badge novelty.newCommand "NEW"
  | .payloadCaptured ev =>
    element "code" ((units ev.sha256).take 16 ++ units "…") ++
      characters (units " (" ++ number ev.sizeBytes ++ units "B) from " ++ units (ev.sourceUrl.getD "unknown"))
  | .syscallExecve ev =>
    characters (units "pid " ++ number ev.pid.toNat ++ units ": " ++ units ev.filename ++ units " " ++
      ofText (Text.join " " (ev.argv.map String.toList)))
  | .syscallConnect ev =>
    characters (units "pid " ++ number ev.pid.toNat ++ units " → " ++ ofText (toText ev.destIp) ++ units ":" ++
      number ev.destPort.toNat)
  | .syscallMemfdCreate ev =>
    characters (units "pid " ++ number ev.pid.toNat ++ units " created fileless memfd '" ++ units ev.name ++ units "'")

section Showing
variable {references : NamedReferences}

-- Source that is text only.
def Spells (references : NamedReferences) (source value : Units) : Prop :=
  0x3c ∉ source ∧ Means references false source value

theorem Spells.append (first : Spells references left value) (second : Spells references right other) :
    Spells references (left ++ right) (value ++ other) :=
  ⟨by simpa using ⟨first.1,second.1⟩,first.2.append second.2⟩

theorem Spells.shows (spelled : Spells references source value) : Shows references source (characters value) :=
  shows_text spelled.1 spelled.2

theorem spells_plain (source : Units) (plain : source.all (fun unit => unit != 0x3c && unit != 0x26) = true) :
    Spells references source source := by
  have each := List.all_eq_true.mp plain
  constructor
  · intro member
    simpa using each _ member
  · refine means_plain source (fun member => ?_)
    simpa using each _ member

theorem spells_escaped (s : Units) : Spells references (escapeHtml s) s := ⟨(escapeHtml_plain s).1,means_escaped s⟩

theorem spells_numeral (plain : Numeral text) : Spells references (ofText text) (ofText text) := by
  refine spells_plain _ (List.all_eq_true.mpr (fun unit member => ?_))
  obtain ⟨c,inText,inside⟩ := List.mem_flatMap.mp member
  have range := numeral_range c (plain c inText)
  have single : ofChar c = [UInt16.ofNat c.toNat] := if_pos (by omega)
  rw [single,List.mem_singleton] at inside
  have code : unit.toNat = c.toNat := by
    rw [inside]
    exact unit_toNat (by omega)
  have less : unit ≠ 0x3c := fun same => by
    rw [same] at code
    change 0x3c = c.toNat at code
    omega
  have ampersand : unit ≠ 0x26 := fun same => by
    rw [same] at code
    change 0x26 = c.toNat at code
    omega
  simp [less,ampersand]

theorem spells_number (n : Nat) : Spells references (number n) (number n) := spells_numeral (numberText_numeral n)

theorem shows_element (open_ close_ : Units) (name : String) (start : Reads .data open_ .data [.tag (opened name)])
    (stop : Reads .data close_ .data [.tag (closed name)]) (spelled : Spells references source value) :
    Shows references (open_ ++ source ++ close_) (element name value) :=
  ((shows_tag start).append spelled.shows).append (shows_tag stop)

theorem shows_badge (fresh : Bool) (label : String) (source : Units)
    (made : source = units "<span class=\"new-badge\">" ++ units label ++ units "</span>")
    (plain : (units label).all (fun unit => unit != 0x3c && unit != 0x26) = true) :
    Shows references (if fresh then source else []) (badge fresh label) := by
  cases fresh with
  | false => exact ⟨[],rfl,fun _ => rfl⟩
  | true =>
    have begins : Reads .data (units "<span class=\"new-badge\">") .data [.tag badgeTag] := rfl
    have ends : Reads .data (units "</span>") .data [.tag (closed "span")] := rfl
    have first : Shows references (units "<span class=\"new-badge\">") [.tag badgeTag] := shows_tag begins
    have last : Shows references (units "</span>") [.tag (closed "span")] := shows_tag ends
    rw [made]
    exact (first.append (spells_plain (units label) plain).shows).append last

theorem reads_link (id : Units) : Reads .data (units "<a href=\"#\" class=\"session-link\" data-id=\"" ++ escapeHtml id ++
    units "\">") .data [.tag (link (escapeHtml id))] := by
  have value := reads_value (escapeHtml id) 0x22 (escapeHtml_plain id).2
    ⟨false,units "a",[(units "href",units "#"),(units "class",units "session-link")]⟩ (units "data-id") []
  have begins : Reads .data (units "<a href=\"#\" class=\"session-link\" data-id=\"") (.quotedValue 0x22
    ⟨false,units "a",[(units "href",units "#"),(units "class",units "session-link")]⟩ (units "data-id") []) [] := rfl
  have ends : Reads (.quotedValue 0x22 ⟨false,units "a",[(units "href",units "#"),(units "class",units "session-link")]⟩
    (units "data-id") (escapeHtml id)) (units "\">") .data [.tag (link (escapeHtml id))] := rfl
  exact (begins.append value).append ends

theorem decode_link (references : NamedReferences) (id : Units) : decodeTag references (link (escapeHtml id)) = link id := by
  have value : decode references true 0 (escapeHtml id) = id := (means_escaped id).whole
  change (⟨false,units "a",[(units "href",units "#"),(units "class",units "session-link"),
    (units "data-id",decode references true 0 (escapeHtml id))]⟩ : Tag) = _
  rw [value]
  rfl

theorem shows_link (id : Units) : Shows references
    (units "<code>" ++ (units "<a href=\"#\" class=\"session-link\" data-id=\"" ++ escapeHtml id ++ units "\">") ++
      escapeHtml id ++ units "</a></code>") (sessionLink id) := by
  have begins : Reads .data (units "<code>") .data [.tag (opened "code")] := rfl
  have code : Shows references (units "<code>") [.tag (opened "code")] := shows_tag begins
  have anchor : Shows references (units "<a href=\"#\" class=\"session-link\" data-id=\"" ++ escapeHtml id ++ units "\">")
      [.tag (link id)] := decode_link references id ▸ shows_tag (reads_link id)
  have stop : Shows references (units "</a></code>") [.tag (closed "a"),.tag (closed "code")] := ⟨_,rfl,fun _ => rfl⟩
  exact ((code.append anchor).append (spells_escaped id).shows).append stop

theorem session_source (id rest : Units) : units "session <code><a href=\"#\" class=\"session-link\" data-id=\"" ++
    escapeHtml id ++ units "\">" ++ escapeHtml id ++ (units "</a></code>" ++ rest) =
      units "session " ++ (units "<code>" ++ (units "<a href=\"#\" class=\"session-link\" data-id=\"" ++ escapeHtml id ++
        units "\">") ++ escapeHtml id ++ units "</a></code>") ++ rest := by
  have split_ : units "session <code><a href=\"#\" class=\"session-link\" data-id=\"" =
      units "session " ++ (units "<code>" ++ units "<a href=\"#\" class=\"session-link\" data-id=\"") := rfl
  rw [split_]
  simp only [List.append_assoc]

theorem shows_session (id : Units) (spelled : Spells references rest value) : Shows references
    (units "session <code><a href=\"#\" class=\"session-link\" data-id=\"" ++ escapeHtml id ++ units "\">" ++
      escapeHtml id ++ (units "</a></code>" ++ rest))
    (characters (units "session ") ++ sessionLink id ++ characters value) := by
  rw [session_source]
  exact ((spells_plain (units "session ") (by decide)).shows.append (shows_link id)).append spelled.shows

section Kinds
variable (novelty : Novelty) (html : Units)

theorem sessionStart_shows (ev : SessionStartEvent) (made : eventDetail novelty (.sessionStart ev) = some html) :
    Shows references html (markup novelty (.sessionStart ev)) := by
  obtain rfl := Option.some.inj made
  have tail : Spells references (units " opened on port " ++ number ev.port.toNat) _ :=
    (spells_plain (units " opened on port ") (by decide)).append (spells_number ev.port.toNat)
  have built := shows_session (units ev.sessionId) tail
  rw [← List.append_assoc (units "</a></code>"),← List.append_assoc] at built
  exact built

theorem sessionEnd_shows (ev : SessionEndEvent) (made : eventDetail novelty (.sessionEnd ev) = some html) :
    Shows references html (markup novelty (.sessionEnd ev)) := by
  rw [eventDetail] at made
  split at made
  · obtain rfl := Option.some.inj made
    have tail : Spells references (units " closed after " ++ ofText (toFixedOne ev.durationSecs) ++ units "s") _ :=
      ((spells_plain (units " closed after ") (by decide)).append (spells_numeral (toFixedOne_numeral _))).append
        (spells_plain (units "s") (by decide))
    have built := shows_session (units ev.sessionId) tail
    rw [← List.append_assoc (units "</a></code>"),← List.append_assoc (units "</a></code>"),← List.append_assoc,
      ← List.append_assoc] at built
    exact built
  · cases made

theorem credentialHarvest_shows (ev : CredentialHarvestEvent) (made : eventDetail novelty (.credentialHarvest ev) = some html) :
    Shows references html (markup novelty (.credentialHarvest ev)) := by
  obtain rfl := Option.some.inj made
  have user : Shows references _ (element "b" (units ev.username)) :=
    shows_element (units "<b>") (units "</b>") "b" rfl rfl (spells_escaped (units ev.username))
  have pass : Shows references _ (element "b" (units (ev.password.getD ""))) :=
    shows_element (units "<b>") (units "</b>") "b" rfl rfl (spells_escaped (units (ev.password.getD "")))
  have userBadge : Shows references _ (badge novelty.newUsername "NEW USER") :=
    shows_badge novelty.newUsername "NEW USER" _ rfl (by decide)
  have passBadge : Shows references _ (badge novelty.newPassword "NEW PASS") :=
    shows_badge novelty.newPassword "NEW PASS" _ rfl (by decide)
  have method : Spells references (units (authMethodName ev.authMethod)) (units (authMethodName ev.authMethod)) := by
    cases ev.authMethod with
    | password => exact spells_plain _ (by decide)
    | publicKey => exact spells_plain _ (by decide)
  have tail : Spells references _ (units " (" ++ units (authMethodName ev.authMethod) ++ units ")") :=
    ((spells_plain (units " (") (by decide)).append method).append (spells_plain (units ")") (by decide))
  have built := ((((user.append userBadge).append (spells_plain (units " / ") (by decide)).shows).append pass).append
    passBadge).append tail.shows
  have split_ : units " / <b>" = units " / " ++ units "<b>" := rfl
  rw [markup,split_]
  simp only [List.append_assoc] at built ⊢
  exact built

theorem commandRun_shows (ev : CommandRunEvent) (made : eventDetail novelty (.commandRun ev) = some html) :
    Shows references html (markup novelty (.commandRun ev)) := by
  obtain rfl := Option.some.inj made
  have command : Shows references _ (element "code" (units ev.command)) :=
    shows_element (units "<code>") (units "</code>") "code" rfl rfl (spells_escaped (units ev.command))
  exact command.append (shows_badge novelty.newCommand "NEW" _ rfl (by decide))

theorem payloadCaptured_shows (ev : PayloadCapturedEvent) (made : eventDetail novelty (.payloadCaptured ev) = some html) :
    Shows references html (markup novelty (.payloadCaptured ev)) := by
  obtain rfl := Option.some.inj made
  have short : Spells references _ ((units ev.sha256).take 16 ++ units "…") :=
    (spells_escaped ((units ev.sha256).take 16)).append (spells_plain (units "…") (by decide))
  have hash := shows_element (units "<code>") (units "</code>") "code" rfl rfl short
  have tail : Spells references _ (units " (" ++ number ev.sizeBytes ++ units "B) from " ++
      units (ev.sourceUrl.getD "unknown")) :=
    (((spells_plain (units " (") (by decide)).append (spells_number ev.sizeBytes)).append
      (spells_plain (units "B) from ") (by decide))).append (spells_escaped (units (ev.sourceUrl.getD "unknown")))
  have built := hash.append tail.shows
  have split_ : units "…</code> (" = units "…" ++ (units "</code>" ++ units " (") := rfl
  rw [markup,split_]
  simp only [List.append_assoc] at built ⊢
  exact built

theorem spells_pid (pid : UInt32) : Spells references (units "pid " ++ number pid.toNat) (units "pid " ++ number pid.toNat) :=
  (spells_plain (units "pid ") (by decide)).append (spells_number _)

theorem syscallExecve_shows (ev : SyscallExecveEvent) (made : eventDetail novelty (.syscallExecve ev) = some html) :
    Shows references html (markup novelty (.syscallExecve ev)) := by
  obtain rfl := Option.some.inj made
  exact ((((spells_pid ev.pid).append (spells_plain (units ": ") (by decide))).append (spells_escaped _)).append
    (spells_plain (units " ") (by decide))).append (spells_escaped _) |>.shows

theorem syscallConnect_shows (ev : SyscallConnectEvent) (made : eventDetail novelty (.syscallConnect ev) = some html) :
    Shows references html (markup novelty (.syscallConnect ev)) := by
  obtain rfl := Option.some.inj made
  have arrow : Means references false (units "&rarr;") (units "→") :=
    means_named (units "rarr") _ references.arrow (fun _ => rfl)
  have between : Spells references (units " &rarr; ") (units " → ") :=
    ((spells_plain (units " ") (by decide)).append ⟨by decide,arrow⟩).append (spells_plain (units " ") (by decide))
  exact ((((spells_pid ev.pid).append between).append (spells_escaped _)).append
    (spells_plain (units ":") (by decide))).append (spells_number _) |>.shows

theorem syscallMemfdCreate_shows (ev : SyscallMemfdCreateEvent) (made : eventDetail novelty (.syscallMemfdCreate ev) = some html) :
    Shows references html (markup novelty (.syscallMemfdCreate ev)) := by
  obtain rfl := Option.some.inj made
  exact (((spells_pid ev.pid).append (spells_plain (units " created fileless memfd '") (by decide))).append
    (spells_escaped _)).append (spells_plain (units "'") (by decide)) |>.shows

-- What the cell shows, element by element, for each kind of event.
theorem eventDetail_shows (ev : TelemetryEvent) (made : eventDetail novelty ev = some html) :
    Shows references html (markup novelty ev) := by
  cases ev with
  | sessionStart ev => exact sessionStart_shows novelty html ev made
  | sessionEnd ev => exact sessionEnd_shows novelty html ev made
  | credentialHarvest ev => exact credentialHarvest_shows novelty html ev made
  | commandRun ev => exact commandRun_shows novelty html ev made
  | payloadCaptured ev => exact payloadCaptured_shows novelty html ev made
  | syscallExecve ev => exact syscallExecve_shows novelty html ev made
  | syscallConnect ev => exact syscallConnect_shows novelty html ev made
  | syscallMemfdCreate ev => exact syscallMemfdCreate_shows novelty html ev made

end Kinds
end Showing
-- The tags of a cell, by the kind of the event and the marks on it alone.
def elementShapes (name : String) : List Shape := [(opened name).shape,(closed name).shape]

def badgeShapes (fresh : Bool) : List Shape := if fresh then [badgeTag.shape,(closed "span").shape] else []

def tagsOf (novelty : Novelty) (kind : String) : List Shape :=
  if kind = "SESSION_START" ∨ kind = "SESSION_END" then
    [(opened "code").shape,(link []).shape,(closed "a").shape,(closed "code").shape]
  else if kind = "CREDENTIAL_HARVEST" then
    elementShapes "b" ++ badgeShapes novelty.newUsername ++ elementShapes "b" ++ badgeShapes novelty.newPassword
  else if kind = "COMMAND_RUN" then elementShapes "code" ++ badgeShapes novelty.newCommand
  else if kind = "PAYLOAD_CAPTURED" then elementShapes "code"
  else []

theorem shapes_tag (tag : Tag) (rest : List Token) : shapes (.tag tag :: rest) = tag.shape :: shapes rest := rfl

theorem shapes_element (name : String) (text : Units) : shapes (element name text) = elementShapes name := by
  rw [element,List.cons_append,shapes_tag,shapes_append,shapes_characters]
  rfl

theorem shapes_badge (fresh : Bool) (label : String) : shapes (badge fresh label) = badgeShapes fresh := by
  cases fresh with
  | false => rfl
  | true =>
    change shapes (.tag badgeTag :: (characters (units label) ++ [.tag (closed "span")])) = _
    rw [shapes_tag,shapes_append,shapes_characters]
    rfl

theorem shapes_sessionLink (id : Units) : shapes (sessionLink id) =
    [(opened "code").shape,(link []).shape,(closed "a").shape,(closed "code").shape] := by
  rw [sessionLink,shapes_append,shapes_append,shapes_characters]
  rfl

theorem markup_tags (novelty : Novelty) (ev : TelemetryEvent) : shapes (markup novelty ev) = tagsOf novelty (eventKind ev) := by
  cases ev with
  | sessionStart ev =>
    rw [markup,shapes_append,shapes_append,shapes_characters,shapes_characters,shapes_sessionLink]
    rfl
  | sessionEnd ev =>
    rw [markup,shapes_append,shapes_append,shapes_characters,shapes_characters,shapes_sessionLink]
    rfl
  | credentialHarvest ev =>
    rw [markup,shapes_append,shapes_append,shapes_append,shapes_append,shapes_append,shapes_characters,shapes_characters,
      shapes_element,shapes_element,shapes_badge,shapes_badge,List.append_nil,List.append_nil]
    rfl
  | commandRun ev =>
    rw [markup,shapes_append,shapes_element,shapes_badge]
    rfl
  | payloadCaptured ev =>
    rw [markup,shapes_append,shapes_element,shapes_characters,List.append_nil]
    rfl
  | syscallExecve ev => exact shapes_characters _
  | syscallConnect ev => exact shapes_characters _
  | syscallMemfdCreate ev => exact shapes_characters _

-- What the tokenizer finds in a cell, before any reference is decoded.
theorem eventDetail_tags (novelty : Novelty) (ev : TelemetryEvent) (html : Units) (made : eventDetail novelty ev = some html)
    (references : NamedReferences) : shapes (run .data html).2 = tagsOf novelty (eventKind ev) ∧ (run .data html).1 = .data := by
  have showing : Shows references html (markup novelty ev) := eventDetail_shows novelty html ev made
  obtain ⟨raw,read,shown⟩ := showing
  have whole := shown []
  rw [List.append_nil] at whole
  have same : shapes raw = shapes (markup novelty ev) := by
    rw [← gather_shapes references [] raw,whole]
    exact (shapes_append _ _).trans (List.append_nil _)
  unfold Reads at read
  rw [read,same,markup_tags]
  exact ⟨rfl,rfl⟩

theorem no_markup_injection (references : NamedReferences) (novelty : Novelty) (ev other : TelemetryEvent)
    (alike : eventKind ev = eventKind other) (html otherHtml : Units) (made : eventDetail novelty ev = some html)
    (also : eventDetail novelty other = some otherHtml) :
    shapes (run .data html).2 = shapes (run .data otherHtml).2 ∧
    parse references html = some (markup novelty ev) ∧
    ∀ inAttribute s, decode references inAttribute 0 (escapeHtml s) = s := by
  have tags := (eventDetail_tags novelty ev html made references).1
  have otherTags := (eventDetail_tags novelty other otherHtml also references).1
  refine ⟨?same,(eventDetail_shows novelty html ev made).parse,fun inAttribute s => (means_escaped s).whole⟩
  case same => rw [tags,otherTags,alike]

-- The references of the page itself.
def pageTable : List (Units × Units) :=
  [(units "amp;",[0x26]),(units "lt;",[0x3c]),(units "gt;",[0x3e]),(units "quot;",[0x22]),(units "rarr;",[0x2192])]

theorem pageTable_ends : ∀ pair ∈ pageTable, 0x3b ∉ pair.1.dropLast := by decide

def pageReferences : NamedReferences where
  value name := (pageTable.find? (fun pair => pair.1 == name)).map Prod.snd
  ends name found known := by
    obtain ⟨pair,listed,_⟩ := Option.map_eq_some_iff.mp known
    have same : pair.1 = name := by simpa using List.find?_some listed
    rw [← same]
    exact pageTable_ends pair (List.mem_of_find?_eq_some listed)
  ampersand := rfl
  less := rfl
  greater := rfl
  quotation := rfl
  arrow := rfl

def scripted : TelemetryEvent :=
  .sessionStart ⟨0,"\"><img src=x onerror='alert(1)'>&lt;",.v4 192 0 2 7,2222,none⟩

def ordinary : TelemetryEvent := .sessionStart ⟨0,"a1b2c3d4e5f6",.v4 192 0 2 7,2222,none⟩

theorem no_markup_injection_scripted : ∃ html, eventDetail ⟨false,false,false⟩ scripted = some html ∧
    shapes (run .data html).2 = [(opened "code").shape,(link []).shape,(closed "a").shape,(closed "code").shape] ∧
    parse pageReferences html = some (markup ⟨false,false,false⟩ scripted) := by
  have plain : ∃ html, eventDetail ⟨false,false,false⟩ ordinary = some html := ⟨_,rfl⟩
  obtain ⟨other,also⟩ := plain
  have made : ∃ html, eventDetail ⟨false,false,false⟩ scripted = some html := ⟨_,rfl⟩
  obtain ⟨html,shown⟩ := made
  have safe := no_markup_injection pageReferences ⟨false,false,false⟩ scripted ordinary rfl html other shown also
  refine ⟨html,shown,?_,safe.2.1⟩
  rw [safe.1]
  exact (eventDetail_tags _ ordinary other also pageReferences).1

end AegisHoneypot.FeedMarkup
