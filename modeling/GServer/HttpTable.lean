import GServer.HttpParser
import GServer.Library.RangeTable

/-!
# The tables of the request machine

The states and transitions of `http11_parser.cpp` in the order of the generated code:
one entry for every `case`, one definition for every `tr` label.  `char` is signed there,
so the comparisons of a `case` are given here as ranges of the byte as it was read.

The action at the end of the head is `Move.done`.  It sets `body_start` and
`content_len`, and before it `xml_sent` or `json_sent`, which this program does not read.
`http_parser_init` does not set `uri_relaxed`: the bytes that depend on it are rows of
their own.  States 348 and 349 are final and are left out, a finished parser is not run.
-/

namespace Agent

open RangeTables

namespace Http

deriving instance DecidableEq for Move

/-- A row for one byte. -/
def byte (n : Nat) (m : Move Nat) : Row (Move Nat) :=
  ⟨[⟨n, n⟩], m⟩

/-- A row for the bytes of a class. -/
def bytes (c : ByteClass) (m : Move Nat) : Row (Move Nat) :=
  ⟨c, m⟩

/-! ## The classes of bytes -/

/-- The decimal digits. -/
def digit : ByteClass := [⟨48, 57⟩]

/-- The digits but one and two. -/
def digit03to9 : ByteClass := [⟨48, 48⟩, ⟨51, 57⟩]

/-- The letters of hexadecimal numerals. -/
def hexLetter : ByteClass := [⟨65, 70⟩, ⟨97, 102⟩]

/-- The digits of hexadecimal numerals. -/
def xdigit : ByteClass := [⟨48, 57⟩, ⟨65, 70⟩, ⟨97, 102⟩]

/-- Those but zero. -/
def xdigit1toF : ByteClass := [⟨49, 57⟩, ⟨65, 70⟩, ⟨97, 102⟩]

/-- Those but zero and five. -/
def xdigit1to4or6toF : ByteClass := [⟨49, 52⟩, ⟨54, 57⟩, ⟨65, 70⟩, ⟨97, 102⟩]

/-- The letters. -/
def alpha : ByteClass := [⟨65, 90⟩, ⟨97, 122⟩]

/-- The bytes of a method. -/
def upperDigit : ByteClass := [⟨48, 57⟩, ⟨65, 90⟩]

/-- The bytes of the name of an XML message. -/
def xmlName : ByteClass := [⟨45, 46⟩, ⟨48, 57⟩, ⟨65, 90⟩, ⟨97, 122⟩]

/-- The bytes of a host name. -/
def regName : ByteClass :=
  [⟨33, 33⟩, ⟨36, 36⟩, ⟨38, 46⟩, ⟨48, 57⟩, ⟨59, 59⟩, ⟨61, 61⟩, ⟨65, 90⟩, ⟨95, 95⟩,
    ⟨97, 122⟩, ⟨126, 126⟩]

/-- The bytes of the part before the at sign. -/
def userInfo : ByteClass :=
  [⟨33, 33⟩, ⟨36, 36⟩, ⟨38, 46⟩, ⟨48, 59⟩, ⟨61, 61⟩, ⟨65, 90⟩, ⟨95, 95⟩, ⟨97, 122⟩,
    ⟨126, 126⟩]

/-- Those but the digits, which may be of a port. -/
def userInfoNoDigit : ByteClass :=
  [⟨33, 33⟩, ⟨36, 36⟩, ⟨38, 46⟩, ⟨58, 59⟩, ⟨61, 61⟩, ⟨65, 90⟩, ⟨95, 95⟩, ⟨97, 122⟩,
    ⟨126, 126⟩]

/-- The bytes of a first segment without a colon. -/
def segmentNoColon : ByteClass :=
  [⟨33, 33⟩, ⟨36, 36⟩, ⟨38, 46⟩, ⟨48, 57⟩, ⟨59, 59⟩, ⟨61, 61⟩, ⟨64, 90⟩, ⟨95, 95⟩,
    ⟨97, 122⟩, ⟨126, 126⟩]

/-- The bytes other than letters that may begin a target. -/
def targetStart : ByteClass :=
  [⟨33, 33⟩, ⟨36, 36⟩, ⟨38, 46⟩, ⟨48, 57⟩, ⟨59, 59⟩, ⟨61, 61⟩, ⟨64, 64⟩, ⟨95, 95⟩,
    ⟨126, 126⟩]

/-- The bytes of a scheme after its first. -/
def schemeChar : ByteClass := [⟨43, 43⟩, ⟨45, 46⟩, ⟨48, 57⟩, ⟨65, 90⟩, ⟨97, 122⟩]

/-- `segmentNoColon` without `schemeChar`. -/
def afterScheme : ByteClass :=
  [⟨33, 33⟩, ⟨36, 36⟩, ⟨38, 42⟩, ⟨44, 44⟩, ⟨59, 59⟩, ⟨61, 61⟩, ⟨64, 64⟩, ⟨95, 95⟩,
    ⟨126, 126⟩]

/-- The bytes of a path segment, and those above 127. -/
def pchar : ByteClass :=
  [⟨33, 33⟩, ⟨36, 36⟩, ⟨38, 46⟩, ⟨48, 59⟩, ⟨61, 61⟩, ⟨64, 90⟩, ⟨95, 95⟩, ⟨97, 122⟩,
    ⟨126, 126⟩, ⟨128, 255⟩]

/-- `pchar` or a slash. -/
def pathChar : ByteClass :=
  [⟨33, 33⟩, ⟨36, 36⟩, ⟨38, 59⟩, ⟨61, 61⟩, ⟨64, 90⟩, ⟨95, 95⟩, ⟨97, 122⟩, ⟨126, 126⟩,
    ⟨128, 255⟩]

/-- `pchar`, a slash or a question mark. -/
def queryChar : ByteClass :=
  [⟨33, 33⟩, ⟨36, 36⟩, ⟨38, 59⟩, ⟨61, 61⟩, ⟨63, 90⟩, ⟨95, 95⟩, ⟨97, 122⟩, ⟨126, 126⟩,
    ⟨128, 255⟩]

/-- The bytes of a field name: `HTTP_CTL` takes away zero and 127 only, and of the
separators it is the tab that is not among them. -/
def token : ByteClass :=
  [⟨1, 8⟩, ⟨10, 31⟩, ⟨33, 33⟩, ⟨35, 39⟩, ⟨42, 43⟩, ⟨45, 46⟩, ⟨48, 57⟩, ⟨65, 90⟩,
    ⟨94, 122⟩, ⟨124, 124⟩, ⟨126, 126⟩]

/-- `token` without the bytes of a line end. -/
def tokenStart : ByteClass :=
  [⟨1, 8⟩, ⟨11, 12⟩, ⟨14, 31⟩, ⟨33, 33⟩, ⟨35, 39⟩, ⟨42, 43⟩, ⟨45, 46⟩, ⟨48, 57⟩,
    ⟨65, 90⟩, ⟨94, 122⟩, ⟨124, 124⟩, ⟨126, 126⟩]

/-- `token` without the line feed. -/
def tokenAfterCR : ByteClass :=
  [⟨1, 8⟩, ⟨11, 31⟩, ⟨33, 33⟩, ⟨35, 39⟩, ⟨42, 43⟩, ⟨45, 46⟩, ⟨48, 57⟩, ⟨65, 90⟩,
    ⟨94, 122⟩, ⟨124, 124⟩, ⟨126, 126⟩]

/-- The bytes of a field value. -/
def valueChar : ByteClass := [⟨1, 9⟩, ⟨11, 12⟩, ⟨14, 126⟩, ⟨128, 255⟩]

/-- `valueChar` without the blanks. -/
def valueStart : ByteClass := [⟨1, 8⟩, ⟨11, 12⟩, ⟨14, 31⟩, ⟨33, 126⟩, ⟨128, 255⟩]

/-- The bytes that are allowed with `uri_relaxed` only. -/
def moreDelims : ByteClass := [⟨94, 94⟩, ⟨123, 123⟩, ⟨125, 125⟩]

/-! ## The labels -/

/-- `goto st`. -/
def st (n : Nat) : Move Nat := .goto [] n

/-- A method begins. -/
def tr0 : Move Nat := .goto [.mark] 2

/-- An XML message begins. -/
def tr2 : Move Nat := .goto [.mark] 194

/-- A JSON message begins. -/
def tr3 : Move Nat := .goto [.mark] 198

/-- The method ends, its space included. -/
def tr4 : Move Nat := .goto [.requestMethod] 3

/-- The path is empty and the target ends. -/
def tr6 : Move Nat := .goto [.mark, .requestPath, .requestUri] 4

/-- A path without a slash in front begins. -/
def tr7 : Move Nat := .goto [.mark] 19

/-- The path is empty and a fragment comes. -/
def tr8 : Move Nat := .goto [.mark, .requestPath, .requestUri] 20

/-- A path begins with an escape. -/
def tr9 : Move Nat := .goto [.mark] 24

/-- A path begins with a slash. -/
def tr10 : Move Nat := .goto [.mark] 33

/-- The path is empty and a query comes. -/
def tr11 : Move Nat := .goto [.mark, .requestPath] 29

/-- A scheme or a path begins. -/
def tr12 : Move Nat := .goto [.mark] 173

/-- The version begins. -/
def tr13 : Move Nat := .goto [.mark] 5

/-- The version ends with a line feed. -/
def tr21 : Move Nat := .goto [.httpVersion] 13

/-- The version ends with a carriage return. -/
def tr22 : Move Nat := .goto [.httpVersion] 17

/-- The name of a field begins. -/
def tr23 : Move Nat := .goto [.startField] 14

/-- A line feed ends the head. -/
def tr24 : Move Nat := .done [.startField]

/-- A carriage return begins the end of the head, or a name. -/
def tr25 : Move Nat := .goto [.startField] 18

/-- The name of a field ends. -/
def tr27 : Move Nat := .goto [.writeField] 15

/-- The value of a field begins. -/
def tr28 : Move Nat := .goto [.startValue] 16

/-- A blank comes before the value. -/
def tr29 : Move Nat := .goto [.startValue] 15

/-- The value is empty and the line ends with a line feed. -/
def tr30 : Move Nat := .goto [.startValue, .writeValue] 13

/-- The value is empty and the line ends with a carriage return. -/
def tr31 : Move Nat := .goto [.startValue, .writeValue] 17

/-- The value ends with a line feed. -/
def tr33 : Move Nat := .goto [.writeValue] 13

/-- The value ends with a carriage return. -/
def tr34 : Move Nat := .goto [.writeValue] 17

/-- The line feed after the carriage return ends the head. -/
def tr36 : Move Nat := .done []

/-- The path ends, and the target does. -/
def tr37 : Move Nat := .goto [.requestPath, .requestUri] 4

/-- The path ends and a fragment comes. -/
def tr39 : Move Nat := .goto [.requestPath, .requestUri] 20

/-- The path ends and a query comes. -/
def tr42 : Move Nat := .goto [.requestPath] 29

/-- A fragment begins. -/
def tr43 : Move Nat := .goto [.mark] 21

/-- The fragment is empty. -/
def tr44 : Move Nat := .goto [.mark, .fragment] 4

/-- A fragment begins with an escape. -/
def tr45 : Move Nat := .goto [.mark] 22

/-- The fragment ends. -/
def tr47 : Move Nat := .goto [.fragment] 4

/-- A query begins. -/
def tr53 : Move Nat := .goto [.startQuery] 30

/-- The query is empty and the target ends. -/
def tr54 : Move Nat := .goto [.startQuery, .queryString, .requestUri] 4

/-- The query is empty and a fragment comes. -/
def tr55 : Move Nat := .goto [.startQuery, .queryString, .requestUri] 20

/-- A query begins with an escape. -/
def tr56 : Move Nat := .goto [.startQuery] 31

/-- The query ends, and the target does. -/
def tr58 : Move Nat := .goto [.queryString, .requestUri] 4

/-- The query ends and a fragment comes. -/
def tr59 : Move Nat := .goto [.queryString, .requestUri] 20

/-- A path after a scheme begins. -/
def tr203 : Move Nat := .goto [.mark] 26

/-- A path after a scheme begins with an escape. -/
def tr204 : Move Nat := .goto [.mark] 27

/-- The name of an XML message ends. -/
def tr224 : Move Nat := .goto [.requestPath] 196

/-- The XML message ends with its zero. -/
def tr227 : Move Nat := .done []

/-- The path of a JSON message ends. -/
def tr228 : Move Nat := .goto [.requestPath] 199

/-- The object of a JSON message begins. -/
def tr232 : Move Nat := .goto [.mark] 200

/-- The JSON message ends with its zero. -/
def tr235 : Move Nat := .done []

/-! ## The states -/

/-- The cases of the generated code. -/
def requestTable : List (Nat × List (Row (Move Nat))) :=
  [(1, [bytes upperDigit tr0, byte 60 tr2, byte 64 tr3]),
    (2, [byte 32 tr4, bytes upperDigit (st 175)]),
    (3, [byte 32 tr6, bytes targetStart tr7, byte 35 tr8, byte 37 tr9, byte 47 tr10, byte 63 tr11,
      bytes alpha tr12]),
    (4, [byte 72 tr13]),
    (5, [byte 84 (st 6)]),
    (6, [byte 84 (st 7)]),
    (7, [byte 80 (st 8)]),
    (8, [byte 47 (st 9)]),
    (9, [byte 49 (st 10)]),
    (10, [byte 46 (st 11)]),
    (11, [bytes [⟨48, 49⟩] (st 12)]),
    (12, [byte 10 tr21, byte 13 tr22]),
    (13, [bytes tokenStart tr23, byte 10 tr24, byte 13 tr25]),
    (14, [bytes token (st 14), byte 58 tr27]),
    (15, [bytes valueStart tr28, bytes [⟨9, 9⟩, ⟨32, 32⟩] tr29, byte 10 tr30, byte 13 tr31]),
    (16, [bytes valueChar (st 16), byte 10 tr33, byte 13 tr34]),
    (17, [byte 10 (st 13)]),
    (18, [bytes tokenAfterCR (st 14), byte 10 tr36, byte 58 tr27]),
    (19, [byte 32 tr37, bytes segmentNoColon (st 19), byte 35 tr39, byte 37 (st 24),
      byte 47 (st 26), byte 63 tr42]),
    (20, [byte 32 tr44, bytes queryChar tr43, byte 37 tr45]),
    (21, [byte 32 tr47, bytes queryChar (st 21), byte 37 (st 22)]),
    (22, [bytes xdigit (st 23)]),
    (23, [bytes xdigit (st 21)]),
    (24, [bytes xdigit (st 25)]),
    (25, [bytes xdigit (st 19)]),
    (26, [byte 32 tr37, bytes pathChar (st 26), byte 35 tr39, byte 37 (st 27), byte 63 tr42]),
    (27, [bytes xdigit (st 28)]),
    (28, [bytes xdigit (st 26)]),
    (29, [byte 32 tr54, bytes queryChar tr53, byte 35 tr55, byte 37 tr56]),
    (30, [byte 32 tr58, bytes queryChar (st 30), byte 35 tr59, byte 37 (st 31)]),
    (31, [bytes xdigit (st 32)]),
    (32, [bytes xdigit (st 30)]),
    (33, [byte 32 tr37, bytes pchar (st 26), byte 35 tr39, byte 37 (st 27), byte 47 (st 34),
      byte 63 tr42]),
    (34, [byte 32 tr37, bytes regName (st 35), byte 35 tr39, byte 37 (st 36), byte 47 (st 26),
      byte 58 (st 38), byte 63 tr42, byte 64 (st 42), byte 91 (st 47)]),
    (35, [byte 32 tr37, bytes regName (st 35), byte 35 tr39, byte 37 (st 36), byte 47 (st 26),
      byte 58 (st 38), byte 63 tr42, byte 64 (st 42)]),
    (36, [bytes xdigit (st 37)]),
    (37, [bytes xdigit (st 35)]),
    (38, [byte 32 tr37, bytes userInfoNoDigit (st 39), byte 35 tr39, byte 37 (st 40),
      byte 47 (st 26), bytes digit (st 38), byte 63 tr42, byte 64 (st 42)]),
    (39, [bytes userInfo (st 39), byte 37 (st 40), byte 64 (st 42)]),
    (40, [bytes xdigit (st 41)]),
    (41, [bytes xdigit (st 39)]),
    (42, [byte 32 tr37, bytes regName (st 43), byte 35 tr39, byte 37 (st 44), byte 47 (st 26),
      byte 58 (st 46), byte 63 tr42, byte 91 (st 47)]),
    (43, [byte 32 tr37, bytes regName (st 43), byte 35 tr39, byte 37 (st 44), byte 47 (st 26),
      byte 58 (st 46), byte 63 tr42]),
    (44, [bytes xdigit (st 45)]),
    (45, [bytes xdigit (st 43)]),
    (46, [byte 32 tr37, byte 35 tr39, byte 47 (st 26), bytes digit (st 46), byte 63 tr42]),
    (47, [byte 6 (st 48), bytes xdigit (st 91), byte 58 (st 167), byte 118 (st 169)]),
    (48, [bytes xdigit (st 49)]),
    (49, [bytes xdigit (st 50), byte 58 (st 53)]),
    (50, [bytes xdigit (st 51), byte 58 (st 53)]),
    (51, [bytes xdigit (st 52), byte 58 (st 53)]),
    (52, [byte 58 (st 53)]),
    (53, [bytes digit03to9 (st 54), byte 49 (st 84), byte 50 (st 87), bytes hexLetter (st 90)]),
    (54, [byte 46 (st 55), bytes xdigit (st 77), byte 58 (st 80)]),
    (55, [bytes digit03to9 (st 56), byte 49 (st 72), byte 50 (st 74)]),
    (56, [byte 46 (st 57)]),
    (57, [bytes digit03to9 (st 58), byte 49 (st 67), byte 50 (st 69)]),
    (58, [byte 46 (st 59)]),
    (59, [bytes digit03to9 (st 60), byte 49 (st 62), byte 50 (st 64)]),
    (60, [byte 93 (st 61)]),
    (61, [byte 32 tr37, byte 35 tr39, byte 47 (st 26), byte 58 (st 46), byte 63 tr42]),
    (62, [bytes digit (st 63), byte 93 (st 61)]),
    (63, [bytes digit (st 60), byte 93 (st 61)]),
    (64, [byte 48 (st 65), byte 53 (st 66), byte 93 (st 61)]),
    (65, [bytes digit (st 60)]),
    (66, [byte 48 (st 60)]),
    (67, [byte 46 (st 59), bytes digit (st 68)]),
    (68, [byte 46 (st 59), bytes digit (st 58)]),
    (69, [byte 46 (st 59), byte 48 (st 70), byte 53 (st 71)]),
    (70, [bytes digit (st 58)]),
    (71, [byte 48 (st 58)]),
    (72, [byte 46 (st 57), bytes digit (st 73)]),
    (73, [byte 46 (st 57), bytes digit (st 56)]),
    (74, [byte 46 (st 57), byte 48 (st 75), byte 53 (st 76)]),
    (75, [bytes digit (st 56)]),
    (76, [byte 48 (st 56)]),
    (77, [bytes xdigit (st 78), byte 58 (st 80)]),
    (78, [bytes xdigit (st 79), byte 58 (st 80)]),
    (79, [byte 58 (st 80)]),
    (80, [bytes xdigit (st 81)]),
    (81, [bytes xdigit (st 82), byte 93 (st 61)]),
    (82, [bytes xdigit (st 83), byte 93 (st 61)]),
    (83, [bytes xdigit (st 60), byte 93 (st 61)]),
    (84, [byte 46 (st 55), bytes digit (st 85), byte 58 (st 80), bytes hexLetter (st 77)]),
    (85, [byte 46 (st 55), bytes digit (st 86), byte 58 (st 80), bytes hexLetter (st 78)]),
    (86, [byte 46 (st 55), bytes xdigit (st 79), byte 58 (st 80)]),
    (87, [byte 46 (st 55), byte 48 (st 88), bytes xdigit1to4or6toF (st 77), byte 53 (st 89),
      byte 58 (st 80)]),
    (88, [bytes digit (st 86), byte 58 (st 80), bytes hexLetter (st 78)]),
    (89, [byte 48 (st 86), bytes xdigit1toF (st 78), byte 58 (st 80)]),
    (90, [bytes xdigit (st 77), byte 58 (st 80)]),
    (91, [bytes xdigit (st 92), byte 58 (st 95)]),
    (92, [bytes xdigit (st 93), byte 58 (st 95)]),
    (93, [bytes xdigit (st 94), byte 58 (st 95)]),
    (94, [byte 58 (st 95)]),
    (95, [bytes xdigit (st 96), byte 58 (st 166)]),
    (96, [bytes xdigit (st 97), byte 58 (st 100)]),
    (97, [bytes xdigit (st 98), byte 58 (st 100)]),
    (98, [bytes xdigit (st 99), byte 58 (st 100)]),
    (99, [byte 58 (st 100)]),
    (100, [bytes xdigit (st 101), byte 58 (st 165)]),
    (101, [bytes xdigit (st 102), byte 58 (st 105)]),
    (102, [bytes xdigit (st 103), byte 58 (st 105)]),
    (103, [bytes xdigit (st 104), byte 58 (st 105)]),
    (104, [byte 58 (st 105)]),
    (105, [bytes xdigit (st 106), byte 58 (st 164)]),
    (106, [bytes xdigit (st 107), byte 58 (st 110)]),
    (107, [bytes xdigit (st 108), byte 58 (st 110)]),
    (108, [bytes xdigit (st 109), byte 58 (st 110)]),
    (109, [byte 58 (st 110)]),
    (110, [bytes xdigit (st 111), byte 58 (st 163)]),
    (111, [bytes xdigit (st 112), byte 58 (st 115)]),
    (112, [bytes xdigit (st 113), byte 58 (st 115)]),
    (113, [bytes xdigit (st 114), byte 58 (st 115)]),
    (114, [byte 58 (st 115)]),
    (115, [bytes xdigit (st 116), byte 58 (st 151)]),
    (116, [bytes xdigit (st 117), byte 58 (st 120)]),
    (117, [bytes xdigit (st 118), byte 58 (st 120)]),
    (118, [bytes xdigit (st 119), byte 58 (st 120)]),
    (119, [byte 58 (st 120)]),
    (120, [bytes xdigit (st 121), byte 58 (st 150)]),
    (121, [bytes xdigit (st 122), byte 58 (st 125)]),
    (122, [bytes xdigit (st 123), byte 58 (st 125)]),
    (123, [bytes xdigit (st 124), byte 58 (st 125)]),
    (124, [byte 58 (st 125)]),
    (125, [bytes xdigit (st 121), byte 58 (st 126)]),
    (126, [bytes [⟨2, 3⟩] (st 48), bytes digit03to9 (st 127), byte 49 (st 143), byte 50 (st 146),
      bytes hexLetter (st 149), byte 93 (st 61)]),
    (127, [byte 46 (st 55), bytes xdigit (st 128), byte 58 (st 131), byte 93 (st 61)]),
    (128, [bytes xdigit (st 129), byte 58 (st 131), byte 93 (st 61)]),
    (129, [bytes xdigit (st 130), byte 58 (st 131), byte 93 (st 61)]),
    (130, [byte 58 (st 131), byte 93 (st 61)]),
    (131, [bytes digit03to9 (st 132), byte 49 (st 136), byte 50 (st 139),
      bytes hexLetter (st 142)]),
    (132, [byte 46 (st 55), bytes xdigit (st 133), byte 58 (st 80), byte 93 (st 61)]),
    (133, [bytes xdigit (st 134), byte 58 (st 80), byte 93 (st 61)]),
    (134, [bytes xdigit (st 135), byte 58 (st 80), byte 93 (st 61)]),
    (135, [byte 58 (st 80), byte 93 (st 61)]),
    (136, [byte 46 (st 55), bytes digit (st 137), byte 58 (st 80), bytes hexLetter (st 133),
      byte 93 (st 61)]),
    (137, [byte 46 (st 55), bytes digit (st 138), byte 58 (st 80), bytes hexLetter (st 134),
      byte 93 (st 61)]),
    (138, [byte 46 (st 55), bytes xdigit (st 135), byte 58 (st 80), byte 93 (st 61)]),
    (139, [byte 46 (st 55), byte 48 (st 140), bytes xdigit1to4or6toF (st 133), byte 53 (st 141),
      byte 58 (st 80), byte 93 (st 61)]),
    (140, [bytes digit (st 138), byte 58 (st 80), bytes hexLetter (st 134), byte 93 (st 61)]),
    (141, [byte 48 (st 138), bytes xdigit1toF (st 134), byte 58 (st 80), byte 93 (st 61)]),
    (142, [bytes xdigit (st 133), byte 58 (st 80), byte 93 (st 61)]),
    (143, [byte 46 (st 55), bytes digit (st 144), byte 58 (st 131), bytes hexLetter (st 128),
      byte 93 (st 61)]),
    (144, [byte 46 (st 55), bytes digit (st 145), byte 58 (st 131), bytes hexLetter (st 129),
      byte 93 (st 61)]),
    (145, [byte 46 (st 55), bytes xdigit (st 130), byte 58 (st 131), byte 93 (st 61)]),
    (146, [byte 46 (st 55), byte 48 (st 147), bytes xdigit1to4or6toF (st 128), byte 53 (st 148),
      byte 58 (st 131), byte 93 (st 61)]),
    (147, [bytes digit (st 145), byte 58 (st 131), bytes hexLetter (st 129), byte 93 (st 61)]),
    (148, [byte 48 (st 145), bytes xdigit1toF (st 129), byte 58 (st 131), byte 93 (st 61)]),
    (149, [bytes xdigit (st 128), byte 58 (st 131), byte 93 (st 61)]),
    (150, [bytes [⟨2, 3⟩] (st 48), bytes digit03to9 (st 127), byte 49 (st 143), byte 50 (st 146),
      bytes hexLetter (st 149)]),
    (151, [bytes [⟨2, 3⟩] (st 48), bytes digit03to9 (st 152), byte 49 (st 156), byte 50 (st 159),
      bytes hexLetter (st 162)]),
    (152, [byte 46 (st 55), bytes xdigit (st 153), byte 58 (st 131)]),
    (153, [bytes xdigit (st 154), byte 58 (st 131)]),
    (154, [bytes xdigit (st 155), byte 58 (st 131)]),
    (155, [byte 58 (st 131)]),
    (156, [byte 46 (st 55), bytes digit (st 157), byte 58 (st 131), bytes hexLetter (st 153)]),
    (157, [byte 46 (st 55), bytes digit (st 158), byte 58 (st 131), bytes hexLetter (st 154)]),
    (158, [byte 46 (st 55), bytes xdigit (st 155), byte 58 (st 131)]),
    (159, [byte 46 (st 55), byte 48 (st 160), bytes xdigit1to4or6toF (st 153), byte 53 (st 161),
      byte 58 (st 131)]),
    (160, [bytes digit (st 158), byte 58 (st 131), bytes hexLetter (st 154)]),
    (161, [byte 48 (st 158), bytes xdigit1toF (st 154), byte 58 (st 131)]),
    (162, [bytes xdigit (st 153), byte 58 (st 131)]),
    (163, [bytes [⟨2, 3⟩] (st 48), bytes xdigit (st 49)]),
    (164, [bytes [⟨2, 3⟩] (st 48)]),
    (165, [byte 3 (st 48)]),
    (166, [byte 4 (st 48)]),
    (167, [byte 58 (st 168)]),
    (168, [bytes [⟨2, 5⟩] (st 48), bytes digit03to9 (st 127), byte 49 (st 143), byte 50 (st 146),
      bytes hexLetter (st 149), byte 93 (st 61)]),
    (169, [bytes xdigit (st 170)]),
    (170, [byte 46 (st 171), bytes xdigit (st 170)]),
    (171, [bytes userInfo (st 172)]),
    (172, [bytes userInfo (st 172), byte 93 (st 61)]),
    (173, [byte 32 tr37, bytes afterScheme (st 19), byte 35 tr39, byte 37 (st 24),
      bytes schemeChar (st 173), byte 47 (st 26), byte 58 (st 174), byte 63 tr42]),
    (174, [byte 32 tr6, bytes pchar tr203, byte 35 tr8, byte 37 tr204, byte 47 tr10, byte 63 tr11]),
    (175, [byte 32 tr4, bytes upperDigit (st 176)]),
    (176, [byte 32 tr4, bytes upperDigit (st 177)]),
    (177, [byte 32 tr4, bytes upperDigit (st 178)]),
    (178, [byte 32 tr4, bytes upperDigit (st 179)]),
    (179, [byte 32 tr4, bytes upperDigit (st 180)]),
    (180, [byte 32 tr4, bytes upperDigit (st 181)]),
    (181, [byte 32 tr4, bytes upperDigit (st 182)]),
    (182, [byte 32 tr4, bytes upperDigit (st 183)]),
    (183, [byte 32 tr4, bytes upperDigit (st 184)]),
    (184, [byte 32 tr4, bytes upperDigit (st 185)]),
    (185, [byte 32 tr4, bytes upperDigit (st 186)]),
    (186, [byte 32 tr4, bytes upperDigit (st 187)]),
    (187, [byte 32 tr4, bytes upperDigit (st 188)]),
    (188, [byte 32 tr4, bytes upperDigit (st 189)]),
    (189, [byte 32 tr4, bytes upperDigit (st 190)]),
    (190, [byte 32 tr4, bytes upperDigit (st 191)]),
    (191, [byte 32 tr4, bytes upperDigit (st 192)]),
    (192, [byte 32 tr4, bytes upperDigit (st 193)]),
    (193, [byte 32 tr4]),
    (194, [bytes xmlName (st 195)]),
    (195, [bytes [⟨9, 13⟩, ⟨32, 32⟩, ⟨47, 47⟩, ⟨62, 62⟩] tr224, bytes xmlName (st 195)]),
    (196, [bytes [⟨0, 61⟩, ⟨63, 255⟩] (st 196), byte 62 (st 197)]),
    (197, [byte 0 tr227, bytes [⟨1, 61⟩, ⟨63, 255⟩] (st 196), byte 62 (st 197)]),
    (198, [byte 32 tr228, bytes segmentNoColon (st 202), byte 37 (st 203), byte 47 (st 208)]),
    (199, [byte 123 tr232]),
    (200, [bytes [⟨0, 124⟩, ⟨126, 255⟩] (st 200), byte 125 (st 201)]),
    (201, [byte 0 tr235, bytes [⟨1, 124⟩, ⟨126, 255⟩] (st 200), byte 125 (st 201)]),
    (202, [byte 32 tr228, bytes segmentNoColon (st 202), byte 37 (st 203), byte 47 (st 205)]),
    (203, [bytes xdigit (st 204)]),
    (204, [bytes xdigit (st 202)]),
    (205, [byte 32 tr228, bytes pathChar (st 205), byte 37 (st 206)]),
    (206, [bytes xdigit (st 207)]),
    (207, [bytes xdigit (st 205)]),
    (208, [byte 32 tr228, bytes pchar (st 205), byte 37 (st 206), byte 47 (st 209)]),
    (209, [byte 32 tr228, bytes regName (st 210), byte 37 (st 211), byte 47 (st 205),
      byte 58 (st 213), byte 64 (st 217), byte 91 (st 222)]),
    (210, [byte 32 tr228, bytes regName (st 210), byte 37 (st 211), byte 47 (st 205),
      byte 58 (st 213), byte 64 (st 217)]),
    (211, [bytes xdigit (st 212)]),
    (212, [bytes xdigit (st 210)]),
    (213, [byte 32 tr228, bytes userInfoNoDigit (st 214), byte 37 (st 215), byte 47 (st 205),
      bytes digit (st 213), byte 64 (st 217)]),
    (214, [bytes userInfo (st 214), byte 37 (st 215), byte 64 (st 217)]),
    (215, [bytes xdigit (st 216)]),
    (216, [bytes xdigit (st 214)]),
    (217, [byte 32 tr228, bytes regName (st 218), byte 37 (st 219), byte 47 (st 205),
      byte 58 (st 221), byte 91 (st 222)]),
    (218, [byte 32 tr228, bytes regName (st 218), byte 37 (st 219), byte 47 (st 205),
      byte 58 (st 221)]),
    (219, [bytes xdigit (st 220)]),
    (220, [bytes xdigit (st 218)]),
    (221, [byte 32 tr228, byte 47 (st 205), bytes digit (st 221)]),
    (222, [byte 6 (st 223), bytes xdigit (st 266), byte 58 (st 342), byte 118 (st 344)]),
    (223, [bytes xdigit (st 224)]),
    (224, [bytes xdigit (st 225), byte 58 (st 228)]),
    (225, [bytes xdigit (st 226), byte 58 (st 228)]),
    (226, [bytes xdigit (st 227), byte 58 (st 228)]),
    (227, [byte 58 (st 228)]),
    (228, [bytes digit03to9 (st 229), byte 49 (st 259), byte 50 (st 262),
      bytes hexLetter (st 265)]),
    (229, [byte 46 (st 230), bytes xdigit (st 252), byte 58 (st 255)]),
    (230, [bytes digit03to9 (st 231), byte 49 (st 247), byte 50 (st 249)]),
    (231, [byte 46 (st 232)]),
    (232, [bytes digit03to9 (st 233), byte 49 (st 242), byte 50 (st 244)]),
    (233, [byte 46 (st 234)]),
    (234, [bytes digit03to9 (st 235), byte 49 (st 237), byte 50 (st 239)]),
    (235, [byte 93 (st 236)]),
    (236, [byte 32 tr228, byte 47 (st 205), byte 58 (st 221)]),
    (237, [bytes digit (st 238), byte 93 (st 236)]),
    (238, [bytes digit (st 235), byte 93 (st 236)]),
    (239, [byte 48 (st 240), byte 53 (st 241), byte 93 (st 236)]),
    (240, [bytes digit (st 235)]),
    (241, [byte 48 (st 235)]),
    (242, [byte 46 (st 234), bytes digit (st 243)]),
    (243, [byte 46 (st 234), bytes digit (st 233)]),
    (244, [byte 46 (st 234), byte 48 (st 245), byte 53 (st 246)]),
    (245, [bytes digit (st 233)]),
    (246, [byte 48 (st 233)]),
    (247, [byte 46 (st 232), bytes digit (st 248)]),
    (248, [byte 46 (st 232), bytes digit (st 231)]),
    (249, [byte 46 (st 232), byte 48 (st 250), byte 53 (st 251)]),
    (250, [bytes digit (st 231)]),
    (251, [byte 48 (st 231)]),
    (252, [bytes xdigit (st 253), byte 58 (st 255)]),
    (253, [bytes xdigit (st 254), byte 58 (st 255)]),
    (254, [byte 58 (st 255)]),
    (255, [bytes xdigit (st 256)]),
    (256, [bytes xdigit (st 257), byte 93 (st 236)]),
    (257, [bytes xdigit (st 258), byte 93 (st 236)]),
    (258, [bytes xdigit (st 235), byte 93 (st 236)]),
    (259, [byte 46 (st 230), bytes digit (st 260), byte 58 (st 255), bytes hexLetter (st 252)]),
    (260, [byte 46 (st 230), bytes digit (st 261), byte 58 (st 255), bytes hexLetter (st 253)]),
    (261, [byte 46 (st 230), bytes xdigit (st 254), byte 58 (st 255)]),
    (262, [byte 46 (st 230), byte 48 (st 263), bytes xdigit1to4or6toF (st 252), byte 53 (st 264),
      byte 58 (st 255)]),
    (263, [bytes digit (st 261), byte 58 (st 255), bytes hexLetter (st 253)]),
    (264, [byte 48 (st 261), bytes xdigit1toF (st 253), byte 58 (st 255)]),
    (265, [bytes xdigit (st 252), byte 58 (st 255)]),
    (266, [bytes xdigit (st 267), byte 58 (st 270)]),
    (267, [bytes xdigit (st 268), byte 58 (st 270)]),
    (268, [bytes xdigit (st 269), byte 58 (st 270)]),
    (269, [byte 58 (st 270)]),
    (270, [bytes xdigit (st 271), byte 58 (st 341)]),
    (271, [bytes xdigit (st 272), byte 58 (st 275)]),
    (272, [bytes xdigit (st 273), byte 58 (st 275)]),
    (273, [bytes xdigit (st 274), byte 58 (st 275)]),
    (274, [byte 58 (st 275)]),
    (275, [bytes xdigit (st 276), byte 58 (st 340)]),
    (276, [bytes xdigit (st 277), byte 58 (st 280)]),
    (277, [bytes xdigit (st 278), byte 58 (st 280)]),
    (278, [bytes xdigit (st 279), byte 58 (st 280)]),
    (279, [byte 58 (st 280)]),
    (280, [bytes xdigit (st 281), byte 58 (st 339)]),
    (281, [bytes xdigit (st 282), byte 58 (st 285)]),
    (282, [bytes xdigit (st 283), byte 58 (st 285)]),
    (283, [bytes xdigit (st 284), byte 58 (st 285)]),
    (284, [byte 58 (st 285)]),
    (285, [bytes xdigit (st 286), byte 58 (st 338)]),
    (286, [bytes xdigit (st 287), byte 58 (st 290)]),
    (287, [bytes xdigit (st 288), byte 58 (st 290)]),
    (288, [bytes xdigit (st 289), byte 58 (st 290)]),
    (289, [byte 58 (st 290)]),
    (290, [bytes xdigit (st 291), byte 58 (st 326)]),
    (291, [bytes xdigit (st 292), byte 58 (st 295)]),
    (292, [bytes xdigit (st 293), byte 58 (st 295)]),
    (293, [bytes xdigit (st 294), byte 58 (st 295)]),
    (294, [byte 58 (st 295)]),
    (295, [bytes xdigit (st 296), byte 58 (st 325)]),
    (296, [bytes xdigit (st 297), byte 58 (st 300)]),
    (297, [bytes xdigit (st 298), byte 58 (st 300)]),
    (298, [bytes xdigit (st 299), byte 58 (st 300)]),
    (299, [byte 58 (st 300)]),
    (300, [bytes xdigit (st 296), byte 58 (st 301)]),
    (301, [bytes [⟨2, 3⟩] (st 223), bytes digit03to9 (st 302), byte 49 (st 318), byte 50 (st 321),
      bytes hexLetter (st 324), byte 93 (st 236)]),
    (302, [byte 46 (st 230), bytes xdigit (st 303), byte 58 (st 306), byte 93 (st 236)]),
    (303, [bytes xdigit (st 304), byte 58 (st 306), byte 93 (st 236)]),
    (304, [bytes xdigit (st 305), byte 58 (st 306), byte 93 (st 236)]),
    (305, [byte 58 (st 306), byte 93 (st 236)]),
    (306, [bytes digit03to9 (st 307), byte 49 (st 311), byte 50 (st 314),
      bytes hexLetter (st 317)]),
    (307, [byte 46 (st 230), bytes xdigit (st 308), byte 58 (st 255), byte 93 (st 236)]),
    (308, [bytes xdigit (st 309), byte 58 (st 255), byte 93 (st 236)]),
    (309, [bytes xdigit (st 310), byte 58 (st 255), byte 93 (st 236)]),
    (310, [byte 58 (st 255), byte 93 (st 236)]),
    (311, [byte 46 (st 230), bytes digit (st 312), byte 58 (st 255), bytes hexLetter (st 308),
      byte 93 (st 236)]),
    (312, [byte 46 (st 230), bytes digit (st 313), byte 58 (st 255), bytes hexLetter (st 309),
      byte 93 (st 236)]),
    (313, [byte 46 (st 230), bytes xdigit (st 310), byte 58 (st 255), byte 93 (st 236)]),
    (314, [byte 46 (st 230), byte 48 (st 315), bytes xdigit1to4or6toF (st 308), byte 53 (st 316),
      byte 58 (st 255), byte 93 (st 236)]),
    (315, [bytes digit (st 313), byte 58 (st 255), bytes hexLetter (st 309), byte 93 (st 236)]),
    (316, [byte 48 (st 313), bytes xdigit1toF (st 309), byte 58 (st 255), byte 93 (st 236)]),
    (317, [bytes xdigit (st 308), byte 58 (st 255), byte 93 (st 236)]),
    (318, [byte 46 (st 230), bytes digit (st 319), byte 58 (st 306), bytes hexLetter (st 303),
      byte 93 (st 236)]),
    (319, [byte 46 (st 230), bytes digit (st 320), byte 58 (st 306), bytes hexLetter (st 304),
      byte 93 (st 236)]),
    (320, [byte 46 (st 230), bytes xdigit (st 305), byte 58 (st 306), byte 93 (st 236)]),
    (321, [byte 46 (st 230), byte 48 (st 322), bytes xdigit1to4or6toF (st 303), byte 53 (st 323),
      byte 58 (st 306), byte 93 (st 236)]),
    (322, [bytes digit (st 320), byte 58 (st 306), bytes hexLetter (st 304), byte 93 (st 236)]),
    (323, [byte 48 (st 320), bytes xdigit1toF (st 304), byte 58 (st 306), byte 93 (st 236)]),
    (324, [bytes xdigit (st 303), byte 58 (st 306), byte 93 (st 236)]),
    (325, [bytes [⟨2, 3⟩] (st 223), bytes digit03to9 (st 302), byte 49 (st 318), byte 50 (st 321),
      bytes hexLetter (st 324)]),
    (326, [bytes [⟨2, 3⟩] (st 223), bytes digit03to9 (st 327), byte 49 (st 331), byte 50 (st 334),
      bytes hexLetter (st 337)]),
    (327, [byte 46 (st 230), bytes xdigit (st 328), byte 58 (st 306)]),
    (328, [bytes xdigit (st 329), byte 58 (st 306)]),
    (329, [bytes xdigit (st 330), byte 58 (st 306)]),
    (330, [byte 58 (st 306)]),
    (331, [byte 46 (st 230), bytes digit (st 332), byte 58 (st 306), bytes hexLetter (st 328)]),
    (332, [byte 46 (st 230), bytes digit (st 333), byte 58 (st 306), bytes hexLetter (st 329)]),
    (333, [byte 46 (st 230), bytes xdigit (st 330), byte 58 (st 306)]),
    (334, [byte 46 (st 230), byte 48 (st 335), bytes xdigit1to4or6toF (st 328), byte 53 (st 336),
      byte 58 (st 306)]),
    (335, [bytes digit (st 333), byte 58 (st 306), bytes hexLetter (st 329)]),
    (336, [byte 48 (st 333), bytes xdigit1toF (st 329), byte 58 (st 306)]),
    (337, [bytes xdigit (st 328), byte 58 (st 306)]),
    (338, [bytes [⟨2, 3⟩] (st 223), bytes xdigit (st 224)]),
    (339, [bytes [⟨2, 3⟩] (st 223)]),
    (340, [byte 3 (st 223)]),
    (341, [byte 4 (st 223)]),
    (342, [byte 58 (st 343)]),
    (343, [bytes [⟨2, 5⟩] (st 223), bytes digit03to9 (st 302), byte 49 (st 318), byte 50 (st 321),
      bytes hexLetter (st 324), byte 93 (st 236)]),
    (344, [bytes xdigit (st 345)]),
    (345, [byte 46 (st 346), bytes xdigit (st 345)]),
    (346, [bytes userInfo (st 347)]),
    (347, [bytes userInfo (st 347), byte 93 (st 236)])]

/-- Where the bytes of `moreDelims` lead with `uri_relaxed`. -/
def relaxedTable : List (Nat × Move Nat) :=
  [(3, tr7), (19, st 19), (20, tr43), (21, st 21), (26, st 26), (29, tr53), (30, st 30),
    (33, st 26), (34, st 35), (35, st 35), (38, st 39), (39, st 39), (42, st 43), (43, st 43),
    (171, st 172), (172, st 172), (173, st 19), (174, tr203), (198, st 202), (202, st 202),
    (205, st 205), (208, st 205), (209, st 210), (210, st 210), (213, st 214), (214, st 214),
    (217, st 218), (218, st 218), (346, st 347), (347, st 347)]

/-- The rows of a state that apply with `uri_relaxed` only. -/
def relaxedRows (s : Nat) : List (Row (Move Nat)) :=
  (relaxedTable.filter fun e => e.1 == s).map fun e => bytes moreDelims e.2

/-- The rows of a state. -/
def requestRows (uriRelaxed : Bool) (s : Nat) : List (Row (Move Nat)) :=
  ((requestTable.find? fun e => e.1 == s).map Prod.snd).getD [] ++
    if uriRelaxed then relaxedRows s else []

/-- The request machine.  A byte without a row leads to the error state. -/
def requestTokenizer (uriRelaxed : Bool) : Tokenizer Nat where
  start := 1
  move s b := (lookup (requestRows uriRelaxed s) b.toNat).getD .error

end Http

end Agent
