import SafeMarkup.Charset.Encoder

/-!
# Code pages

A code page is a character encoding with one byte per character. Bytes below 0x80 are ASCII in all
of them; they differ in the characters of the other 128 bytes. Code pages are the encoders that come
with this library, for programs that need one and for examples.
-/

namespace SafeMarkup

/-- A character encoding with one byte per character. -/
structure CodePage where
  name : String
  /-- The characters of the bytes 0x80 to 0xFF, in order. A byte without a character has U+FFFD. -/
  upper : Text
  deriving DecidableEq, Repr

namespace CodePage

/-- The byte of a character, if it has one. -/
def byte? (page : CodePage) (c : Char) : Option UInt8 :=
  if isAscii c then some (UInt8.ofNat c.toNat)
  else if c = '\ufffd' then none
  else (page.upper.idxOf? c).map fun index => UInt8.ofNat (0x80 + index)

/-- Encodes as many characters as there is room for. -/
def encode (page : CodePage) : ByteEncoder
  | _, [] => ⟨0, [], false⟩
  | room, c :: rest =>
    let bytes := charBytes page.byte? c
    if bytes.length ≤ room then
      let block := page.encode (room - bytes.length) rest
      { block with read := c.utf8Size + block.read, bytes := bytes ++ block.bytes }
    else ⟨0, [], true⟩

/-! ### The tables

Each line holds the characters of eight bytes. -/

def ibm866 : CodePage where
  name := "IBM866"
  upper :=
    "\u0410\u0411\u0412\u0413\u0414\u0415\u0416\u0417".toList ++
    "\u0418\u0419\u041a\u041b\u041c\u041d\u041e\u041f".toList ++
    "\u0420\u0421\u0422\u0423\u0424\u0425\u0426\u0427".toList ++
    "\u0428\u0429\u042a\u042b\u042c\u042d\u042e\u042f".toList ++
    "\u0430\u0431\u0432\u0433\u0434\u0435\u0436\u0437".toList ++
    "\u0438\u0439\u043a\u043b\u043c\u043d\u043e\u043f".toList ++
    "\u2591\u2592\u2593\u2502\u2524\u2561\u2562\u2556".toList ++
    "\u2555\u2563\u2551\u2557\u255d\u255c\u255b\u2510".toList ++
    "\u2514\u2534\u252c\u251c\u2500\u253c\u255e\u255f".toList ++
    "\u255a\u2554\u2569\u2566\u2560\u2550\u256c\u2567".toList ++
    "\u2568\u2564\u2565\u2559\u2558\u2552\u2553\u256b".toList ++
    "\u256a\u2518\u250c\u2588\u2584\u258c\u2590\u2580".toList ++
    "\u0440\u0441\u0442\u0443\u0444\u0445\u0446\u0447".toList ++
    "\u0448\u0449\u044a\u044b\u044c\u044d\u044e\u044f".toList ++
    "\u0401\u0451\u0404\u0454\u0407\u0457\u040e\u045e".toList ++
    "\u00b0\u2219\u00b7\u221a\u2116\u00a4\u25a0\u00a0".toList

def iso88592 : CodePage where
  name := "ISO-8859-2"
  upper :=
    "\u0080\u0081\u0082\u0083\u0084\u0085\u0086\u0087".toList ++
    "\u0088\u0089\u008a\u008b\u008c\u008d\u008e\u008f".toList ++
    "\u0090\u0091\u0092\u0093\u0094\u0095\u0096\u0097".toList ++
    "\u0098\u0099\u009a\u009b\u009c\u009d\u009e\u009f".toList ++
    "\u00a0\u0104\u02d8\u0141\u00a4\u013d\u015a\u00a7".toList ++
    "\u00a8\u0160\u015e\u0164\u0179\u00ad\u017d\u017b".toList ++
    "\u00b0\u0105\u02db\u0142\u00b4\u013e\u015b\u02c7".toList ++
    "\u00b8\u0161\u015f\u0165\u017a\u02dd\u017e\u017c".toList ++
    "\u0154\u00c1\u00c2\u0102\u00c4\u0139\u0106\u00c7".toList ++
    "\u010c\u00c9\u0118\u00cb\u011a\u00cd\u00ce\u010e".toList ++
    "\u0110\u0143\u0147\u00d3\u00d4\u0150\u00d6\u00d7".toList ++
    "\u0158\u016e\u00da\u0170\u00dc\u00dd\u0162\u00df".toList ++
    "\u0155\u00e1\u00e2\u0103\u00e4\u013a\u0107\u00e7".toList ++
    "\u010d\u00e9\u0119\u00eb\u011b\u00ed\u00ee\u010f".toList ++
    "\u0111\u0144\u0148\u00f3\u00f4\u0151\u00f6\u00f7".toList ++
    "\u0159\u016f\u00fa\u0171\u00fc\u00fd\u0163\u02d9".toList

def iso88593 : CodePage where
  name := "ISO-8859-3"
  upper :=
    "\u0080\u0081\u0082\u0083\u0084\u0085\u0086\u0087".toList ++
    "\u0088\u0089\u008a\u008b\u008c\u008d\u008e\u008f".toList ++
    "\u0090\u0091\u0092\u0093\u0094\u0095\u0096\u0097".toList ++
    "\u0098\u0099\u009a\u009b\u009c\u009d\u009e\u009f".toList ++
    "\u00a0\u0126\u02d8\u00a3\u00a4\ufffd\u0124\u00a7".toList ++
    "\u00a8\u0130\u015e\u011e\u0134\u00ad\ufffd\u017b".toList ++
    "\u00b0\u0127\u00b2\u00b3\u00b4\u00b5\u0125\u00b7".toList ++
    "\u00b8\u0131\u015f\u011f\u0135\u00bd\ufffd\u017c".toList ++
    "\u00c0\u00c1\u00c2\ufffd\u00c4\u010a\u0108\u00c7".toList ++
    "\u00c8\u00c9\u00ca\u00cb\u00cc\u00cd\u00ce\u00cf".toList ++
    "\ufffd\u00d1\u00d2\u00d3\u00d4\u0120\u00d6\u00d7".toList ++
    "\u011c\u00d9\u00da\u00db\u00dc\u016c\u015c\u00df".toList ++
    "\u00e0\u00e1\u00e2\ufffd\u00e4\u010b\u0109\u00e7".toList ++
    "\u00e8\u00e9\u00ea\u00eb\u00ec\u00ed\u00ee\u00ef".toList ++
    "\ufffd\u00f1\u00f2\u00f3\u00f4\u0121\u00f6\u00f7".toList ++
    "\u011d\u00f9\u00fa\u00fb\u00fc\u016d\u015d\u02d9".toList

def iso88594 : CodePage where
  name := "ISO-8859-4"
  upper :=
    "\u0080\u0081\u0082\u0083\u0084\u0085\u0086\u0087".toList ++
    "\u0088\u0089\u008a\u008b\u008c\u008d\u008e\u008f".toList ++
    "\u0090\u0091\u0092\u0093\u0094\u0095\u0096\u0097".toList ++
    "\u0098\u0099\u009a\u009b\u009c\u009d\u009e\u009f".toList ++
    "\u00a0\u0104\u0138\u0156\u00a4\u0128\u013b\u00a7".toList ++
    "\u00a8\u0160\u0112\u0122\u0166\u00ad\u017d\u00af".toList ++
    "\u00b0\u0105\u02db\u0157\u00b4\u0129\u013c\u02c7".toList ++
    "\u00b8\u0161\u0113\u0123\u0167\u014a\u017e\u014b".toList ++
    "\u0100\u00c1\u00c2\u00c3\u00c4\u00c5\u00c6\u012e".toList ++
    "\u010c\u00c9\u0118\u00cb\u0116\u00cd\u00ce\u012a".toList ++
    "\u0110\u0145\u014c\u0136\u00d4\u00d5\u00d6\u00d7".toList ++
    "\u00d8\u0172\u00da\u00db\u00dc\u0168\u016a\u00df".toList ++
    "\u0101\u00e1\u00e2\u00e3\u00e4\u00e5\u00e6\u012f".toList ++
    "\u010d\u00e9\u0119\u00eb\u0117\u00ed\u00ee\u012b".toList ++
    "\u0111\u0146\u014d\u0137\u00f4\u00f5\u00f6\u00f7".toList ++
    "\u00f8\u0173\u00fa\u00fb\u00fc\u0169\u016b\u02d9".toList

def iso88595 : CodePage where
  name := "ISO-8859-5"
  upper :=
    "\u0080\u0081\u0082\u0083\u0084\u0085\u0086\u0087".toList ++
    "\u0088\u0089\u008a\u008b\u008c\u008d\u008e\u008f".toList ++
    "\u0090\u0091\u0092\u0093\u0094\u0095\u0096\u0097".toList ++
    "\u0098\u0099\u009a\u009b\u009c\u009d\u009e\u009f".toList ++
    "\u00a0\u0401\u0402\u0403\u0404\u0405\u0406\u0407".toList ++
    "\u0408\u0409\u040a\u040b\u040c\u00ad\u040e\u040f".toList ++
    "\u0410\u0411\u0412\u0413\u0414\u0415\u0416\u0417".toList ++
    "\u0418\u0419\u041a\u041b\u041c\u041d\u041e\u041f".toList ++
    "\u0420\u0421\u0422\u0423\u0424\u0425\u0426\u0427".toList ++
    "\u0428\u0429\u042a\u042b\u042c\u042d\u042e\u042f".toList ++
    "\u0430\u0431\u0432\u0433\u0434\u0435\u0436\u0437".toList ++
    "\u0438\u0439\u043a\u043b\u043c\u043d\u043e\u043f".toList ++
    "\u0440\u0441\u0442\u0443\u0444\u0445\u0446\u0447".toList ++
    "\u0448\u0449\u044a\u044b\u044c\u044d\u044e\u044f".toList ++
    "\u2116\u0451\u0452\u0453\u0454\u0455\u0456\u0457".toList ++
    "\u0458\u0459\u045a\u045b\u045c\u00a7\u045e\u045f".toList

def iso88596 : CodePage where
  name := "ISO-8859-6"
  upper :=
    "\u0080\u0081\u0082\u0083\u0084\u0085\u0086\u0087".toList ++
    "\u0088\u0089\u008a\u008b\u008c\u008d\u008e\u008f".toList ++
    "\u0090\u0091\u0092\u0093\u0094\u0095\u0096\u0097".toList ++
    "\u0098\u0099\u009a\u009b\u009c\u009d\u009e\u009f".toList ++
    "\u00a0\ufffd\ufffd\ufffd\u00a4\ufffd\ufffd\ufffd".toList ++
    "\ufffd\ufffd\ufffd\ufffd\u060c\u00ad\ufffd\ufffd".toList ++
    "\ufffd\ufffd\ufffd\ufffd\ufffd\ufffd\ufffd\ufffd".toList ++
    "\ufffd\ufffd\ufffd\u061b\ufffd\ufffd\ufffd\u061f".toList ++
    "\ufffd\u0621\u0622\u0623\u0624\u0625\u0626\u0627".toList ++
    "\u0628\u0629\u062a\u062b\u062c\u062d\u062e\u062f".toList ++
    "\u0630\u0631\u0632\u0633\u0634\u0635\u0636\u0637".toList ++
    "\u0638\u0639\u063a\ufffd\ufffd\ufffd\ufffd\ufffd".toList ++
    "\u0640\u0641\u0642\u0643\u0644\u0645\u0646\u0647".toList ++
    "\u0648\u0649\u064a\u064b\u064c\u064d\u064e\u064f".toList ++
    "\u0650\u0651\u0652\ufffd\ufffd\ufffd\ufffd\ufffd".toList ++
    "\ufffd\ufffd\ufffd\ufffd\ufffd\ufffd\ufffd\ufffd".toList

def iso88597 : CodePage where
  name := "ISO-8859-7"
  upper :=
    "\u0080\u0081\u0082\u0083\u0084\u0085\u0086\u0087".toList ++
    "\u0088\u0089\u008a\u008b\u008c\u008d\u008e\u008f".toList ++
    "\u0090\u0091\u0092\u0093\u0094\u0095\u0096\u0097".toList ++
    "\u0098\u0099\u009a\u009b\u009c\u009d\u009e\u009f".toList ++
    "\u00a0\u2018\u2019\u00a3\u20ac\u20af\u00a6\u00a7".toList ++
    "\u00a8\u00a9\u037a\u00ab\u00ac\u00ad\ufffd\u2015".toList ++
    "\u00b0\u00b1\u00b2\u00b3\u0384\u0385\u0386\u00b7".toList ++
    "\u0388\u0389\u038a\u00bb\u038c\u00bd\u038e\u038f".toList ++
    "\u0390\u0391\u0392\u0393\u0394\u0395\u0396\u0397".toList ++
    "\u0398\u0399\u039a\u039b\u039c\u039d\u039e\u039f".toList ++
    "\u03a0\u03a1\ufffd\u03a3\u03a4\u03a5\u03a6\u03a7".toList ++
    "\u03a8\u03a9\u03aa\u03ab\u03ac\u03ad\u03ae\u03af".toList ++
    "\u03b0\u03b1\u03b2\u03b3\u03b4\u03b5\u03b6\u03b7".toList ++
    "\u03b8\u03b9\u03ba\u03bb\u03bc\u03bd\u03be\u03bf".toList ++
    "\u03c0\u03c1\u03c2\u03c3\u03c4\u03c5\u03c6\u03c7".toList ++
    "\u03c8\u03c9\u03ca\u03cb\u03cc\u03cd\u03ce\ufffd".toList

def iso88598 : CodePage where
  name := "ISO-8859-8"
  upper :=
    "\u0080\u0081\u0082\u0083\u0084\u0085\u0086\u0087".toList ++
    "\u0088\u0089\u008a\u008b\u008c\u008d\u008e\u008f".toList ++
    "\u0090\u0091\u0092\u0093\u0094\u0095\u0096\u0097".toList ++
    "\u0098\u0099\u009a\u009b\u009c\u009d\u009e\u009f".toList ++
    "\u00a0\ufffd\u00a2\u00a3\u00a4\u00a5\u00a6\u00a7".toList ++
    "\u00a8\u00a9\u00d7\u00ab\u00ac\u00ad\u00ae\u00af".toList ++
    "\u00b0\u00b1\u00b2\u00b3\u00b4\u00b5\u00b6\u00b7".toList ++
    "\u00b8\u00b9\u00f7\u00bb\u00bc\u00bd\u00be\ufffd".toList ++
    "\ufffd\ufffd\ufffd\ufffd\ufffd\ufffd\ufffd\ufffd".toList ++
    "\ufffd\ufffd\ufffd\ufffd\ufffd\ufffd\ufffd\ufffd".toList ++
    "\ufffd\ufffd\ufffd\ufffd\ufffd\ufffd\ufffd\ufffd".toList ++
    "\ufffd\ufffd\ufffd\ufffd\ufffd\ufffd\ufffd\u2017".toList ++
    "\u05d0\u05d1\u05d2\u05d3\u05d4\u05d5\u05d6\u05d7".toList ++
    "\u05d8\u05d9\u05da\u05db\u05dc\u05dd\u05de\u05df".toList ++
    "\u05e0\u05e1\u05e2\u05e3\u05e4\u05e5\u05e6\u05e7".toList ++
    "\u05e8\u05e9\u05ea\ufffd\ufffd\u200e\u200f\ufffd".toList

def iso88598I : CodePage where
  name := "ISO-8859-8-I"
  upper :=
    "\u0080\u0081\u0082\u0083\u0084\u0085\u0086\u0087".toList ++
    "\u0088\u0089\u008a\u008b\u008c\u008d\u008e\u008f".toList ++
    "\u0090\u0091\u0092\u0093\u0094\u0095\u0096\u0097".toList ++
    "\u0098\u0099\u009a\u009b\u009c\u009d\u009e\u009f".toList ++
    "\u00a0\ufffd\u00a2\u00a3\u00a4\u00a5\u00a6\u00a7".toList ++
    "\u00a8\u00a9\u00d7\u00ab\u00ac\u00ad\u00ae\u00af".toList ++
    "\u00b0\u00b1\u00b2\u00b3\u00b4\u00b5\u00b6\u00b7".toList ++
    "\u00b8\u00b9\u00f7\u00bb\u00bc\u00bd\u00be\ufffd".toList ++
    "\ufffd\ufffd\ufffd\ufffd\ufffd\ufffd\ufffd\ufffd".toList ++
    "\ufffd\ufffd\ufffd\ufffd\ufffd\ufffd\ufffd\ufffd".toList ++
    "\ufffd\ufffd\ufffd\ufffd\ufffd\ufffd\ufffd\ufffd".toList ++
    "\ufffd\ufffd\ufffd\ufffd\ufffd\ufffd\ufffd\u2017".toList ++
    "\u05d0\u05d1\u05d2\u05d3\u05d4\u05d5\u05d6\u05d7".toList ++
    "\u05d8\u05d9\u05da\u05db\u05dc\u05dd\u05de\u05df".toList ++
    "\u05e0\u05e1\u05e2\u05e3\u05e4\u05e5\u05e6\u05e7".toList ++
    "\u05e8\u05e9\u05ea\ufffd\ufffd\u200e\u200f\ufffd".toList

def iso885910 : CodePage where
  name := "ISO-8859-10"
  upper :=
    "\u0080\u0081\u0082\u0083\u0084\u0085\u0086\u0087".toList ++
    "\u0088\u0089\u008a\u008b\u008c\u008d\u008e\u008f".toList ++
    "\u0090\u0091\u0092\u0093\u0094\u0095\u0096\u0097".toList ++
    "\u0098\u0099\u009a\u009b\u009c\u009d\u009e\u009f".toList ++
    "\u00a0\u0104\u0112\u0122\u012a\u0128\u0136\u00a7".toList ++
    "\u013b\u0110\u0160\u0166\u017d\u00ad\u016a\u014a".toList ++
    "\u00b0\u0105\u0113\u0123\u012b\u0129\u0137\u00b7".toList ++
    "\u013c\u0111\u0161\u0167\u017e\u2015\u016b\u014b".toList ++
    "\u0100\u00c1\u00c2\u00c3\u00c4\u00c5\u00c6\u012e".toList ++
    "\u010c\u00c9\u0118\u00cb\u0116\u00cd\u00ce\u00cf".toList ++
    "\u00d0\u0145\u014c\u00d3\u00d4\u00d5\u00d6\u0168".toList ++
    "\u00d8\u0172\u00da\u00db\u00dc\u00dd\u00de\u00df".toList ++
    "\u0101\u00e1\u00e2\u00e3\u00e4\u00e5\u00e6\u012f".toList ++
    "\u010d\u00e9\u0119\u00eb\u0117\u00ed\u00ee\u00ef".toList ++
    "\u00f0\u0146\u014d\u00f3\u00f4\u00f5\u00f6\u0169".toList ++
    "\u00f8\u0173\u00fa\u00fb\u00fc\u00fd\u00fe\u0138".toList

def iso885913 : CodePage where
  name := "ISO-8859-13"
  upper :=
    "\u0080\u0081\u0082\u0083\u0084\u0085\u0086\u0087".toList ++
    "\u0088\u0089\u008a\u008b\u008c\u008d\u008e\u008f".toList ++
    "\u0090\u0091\u0092\u0093\u0094\u0095\u0096\u0097".toList ++
    "\u0098\u0099\u009a\u009b\u009c\u009d\u009e\u009f".toList ++
    "\u00a0\u201d\u00a2\u00a3\u00a4\u201e\u00a6\u00a7".toList ++
    "\u00d8\u00a9\u0156\u00ab\u00ac\u00ad\u00ae\u00c6".toList ++
    "\u00b0\u00b1\u00b2\u00b3\u201c\u00b5\u00b6\u00b7".toList ++
    "\u00f8\u00b9\u0157\u00bb\u00bc\u00bd\u00be\u00e6".toList ++
    "\u0104\u012e\u0100\u0106\u00c4\u00c5\u0118\u0112".toList ++
    "\u010c\u00c9\u0179\u0116\u0122\u0136\u012a\u013b".toList ++
    "\u0160\u0143\u0145\u00d3\u014c\u00d5\u00d6\u00d7".toList ++
    "\u0172\u0141\u015a\u016a\u00dc\u017b\u017d\u00df".toList ++
    "\u0105\u012f\u0101\u0107\u00e4\u00e5\u0119\u0113".toList ++
    "\u010d\u00e9\u017a\u0117\u0123\u0137\u012b\u013c".toList ++
    "\u0161\u0144\u0146\u00f3\u014d\u00f5\u00f6\u00f7".toList ++
    "\u0173\u0142\u015b\u016b\u00fc\u017c\u017e\u2019".toList

def iso885914 : CodePage where
  name := "ISO-8859-14"
  upper :=
    "\u0080\u0081\u0082\u0083\u0084\u0085\u0086\u0087".toList ++
    "\u0088\u0089\u008a\u008b\u008c\u008d\u008e\u008f".toList ++
    "\u0090\u0091\u0092\u0093\u0094\u0095\u0096\u0097".toList ++
    "\u0098\u0099\u009a\u009b\u009c\u009d\u009e\u009f".toList ++
    "\u00a0\u1e02\u1e03\u00a3\u010a\u010b\u1e0a\u00a7".toList ++
    "\u1e80\u00a9\u1e82\u1e0b\u1ef2\u00ad\u00ae\u0178".toList ++
    "\u1e1e\u1e1f\u0120\u0121\u1e40\u1e41\u00b6\u1e56".toList ++
    "\u1e81\u1e57\u1e83\u1e60\u1ef3\u1e84\u1e85\u1e61".toList ++
    "\u00c0\u00c1\u00c2\u00c3\u00c4\u00c5\u00c6\u00c7".toList ++
    "\u00c8\u00c9\u00ca\u00cb\u00cc\u00cd\u00ce\u00cf".toList ++
    "\u0174\u00d1\u00d2\u00d3\u00d4\u00d5\u00d6\u1e6a".toList ++
    "\u00d8\u00d9\u00da\u00db\u00dc\u00dd\u0176\u00df".toList ++
    "\u00e0\u00e1\u00e2\u00e3\u00e4\u00e5\u00e6\u00e7".toList ++
    "\u00e8\u00e9\u00ea\u00eb\u00ec\u00ed\u00ee\u00ef".toList ++
    "\u0175\u00f1\u00f2\u00f3\u00f4\u00f5\u00f6\u1e6b".toList ++
    "\u00f8\u00f9\u00fa\u00fb\u00fc\u00fd\u0177\u00ff".toList

def iso885915 : CodePage where
  name := "ISO-8859-15"
  upper :=
    "\u0080\u0081\u0082\u0083\u0084\u0085\u0086\u0087".toList ++
    "\u0088\u0089\u008a\u008b\u008c\u008d\u008e\u008f".toList ++
    "\u0090\u0091\u0092\u0093\u0094\u0095\u0096\u0097".toList ++
    "\u0098\u0099\u009a\u009b\u009c\u009d\u009e\u009f".toList ++
    "\u00a0\u00a1\u00a2\u00a3\u20ac\u00a5\u0160\u00a7".toList ++
    "\u0161\u00a9\u00aa\u00ab\u00ac\u00ad\u00ae\u00af".toList ++
    "\u00b0\u00b1\u00b2\u00b3\u017d\u00b5\u00b6\u00b7".toList ++
    "\u017e\u00b9\u00ba\u00bb\u0152\u0153\u0178\u00bf".toList ++
    "\u00c0\u00c1\u00c2\u00c3\u00c4\u00c5\u00c6\u00c7".toList ++
    "\u00c8\u00c9\u00ca\u00cb\u00cc\u00cd\u00ce\u00cf".toList ++
    "\u00d0\u00d1\u00d2\u00d3\u00d4\u00d5\u00d6\u00d7".toList ++
    "\u00d8\u00d9\u00da\u00db\u00dc\u00dd\u00de\u00df".toList ++
    "\u00e0\u00e1\u00e2\u00e3\u00e4\u00e5\u00e6\u00e7".toList ++
    "\u00e8\u00e9\u00ea\u00eb\u00ec\u00ed\u00ee\u00ef".toList ++
    "\u00f0\u00f1\u00f2\u00f3\u00f4\u00f5\u00f6\u00f7".toList ++
    "\u00f8\u00f9\u00fa\u00fb\u00fc\u00fd\u00fe\u00ff".toList

def iso885916 : CodePage where
  name := "ISO-8859-16"
  upper :=
    "\u0080\u0081\u0082\u0083\u0084\u0085\u0086\u0087".toList ++
    "\u0088\u0089\u008a\u008b\u008c\u008d\u008e\u008f".toList ++
    "\u0090\u0091\u0092\u0093\u0094\u0095\u0096\u0097".toList ++
    "\u0098\u0099\u009a\u009b\u009c\u009d\u009e\u009f".toList ++
    "\u00a0\u0104\u0105\u0141\u20ac\u201e\u0160\u00a7".toList ++
    "\u0161\u00a9\u0218\u00ab\u0179\u00ad\u017a\u017b".toList ++
    "\u00b0\u00b1\u010c\u0142\u017d\u201d\u00b6\u00b7".toList ++
    "\u017e\u010d\u0219\u00bb\u0152\u0153\u0178\u017c".toList ++
    "\u00c0\u00c1\u00c2\u0102\u00c4\u0106\u00c6\u00c7".toList ++
    "\u00c8\u00c9\u00ca\u00cb\u00cc\u00cd\u00ce\u00cf".toList ++
    "\u0110\u0143\u00d2\u00d3\u00d4\u0150\u00d6\u015a".toList ++
    "\u0170\u00d9\u00da\u00db\u00dc\u0118\u021a\u00df".toList ++
    "\u00e0\u00e1\u00e2\u0103\u00e4\u0107\u00e6\u00e7".toList ++
    "\u00e8\u00e9\u00ea\u00eb\u00ec\u00ed\u00ee\u00ef".toList ++
    "\u0111\u0144\u00f2\u00f3\u00f4\u0151\u00f6\u015b".toList ++
    "\u0171\u00f9\u00fa\u00fb\u00fc\u0119\u021b\u00ff".toList

def koi8R : CodePage where
  name := "KOI8-R"
  upper :=
    "\u2500\u2502\u250c\u2510\u2514\u2518\u251c\u2524".toList ++
    "\u252c\u2534\u253c\u2580\u2584\u2588\u258c\u2590".toList ++
    "\u2591\u2592\u2593\u2320\u25a0\u2219\u221a\u2248".toList ++
    "\u2264\u2265\u00a0\u2321\u00b0\u00b2\u00b7\u00f7".toList ++
    "\u2550\u2551\u2552\u0451\u2553\u2554\u2555\u2556".toList ++
    "\u2557\u2558\u2559\u255a\u255b\u255c\u255d\u255e".toList ++
    "\u255f\u2560\u2561\u0401\u2562\u2563\u2564\u2565".toList ++
    "\u2566\u2567\u2568\u2569\u256a\u256b\u256c\u00a9".toList ++
    "\u044e\u0430\u0431\u0446\u0434\u0435\u0444\u0433".toList ++
    "\u0445\u0438\u0439\u043a\u043b\u043c\u043d\u043e".toList ++
    "\u043f\u044f\u0440\u0441\u0442\u0443\u0436\u0432".toList ++
    "\u044c\u044b\u0437\u0448\u044d\u0449\u0447\u044a".toList ++
    "\u042e\u0410\u0411\u0426\u0414\u0415\u0424\u0413".toList ++
    "\u0425\u0418\u0419\u041a\u041b\u041c\u041d\u041e".toList ++
    "\u041f\u042f\u0420\u0421\u0422\u0423\u0416\u0412".toList ++
    "\u042c\u042b\u0417\u0428\u042d\u0429\u0427\u042a".toList

def koi8U : CodePage where
  name := "KOI8-U"
  upper :=
    "\u2500\u2502\u250c\u2510\u2514\u2518\u251c\u2524".toList ++
    "\u252c\u2534\u253c\u2580\u2584\u2588\u258c\u2590".toList ++
    "\u2591\u2592\u2593\u2320\u25a0\u2219\u221a\u2248".toList ++
    "\u2264\u2265\u00a0\u2321\u00b0\u00b2\u00b7\u00f7".toList ++
    "\u2550\u2551\u2552\u0451\u0454\u2554\u0456\u0457".toList ++
    "\u2557\u2558\u2559\u255a\u255b\u0491\u045e\u255e".toList ++
    "\u255f\u2560\u2561\u0401\u0404\u2563\u0406\u0407".toList ++
    "\u2566\u2567\u2568\u2569\u256a\u0490\u040e\u00a9".toList ++
    "\u044e\u0430\u0431\u0446\u0434\u0435\u0444\u0433".toList ++
    "\u0445\u0438\u0439\u043a\u043b\u043c\u043d\u043e".toList ++
    "\u043f\u044f\u0440\u0441\u0442\u0443\u0436\u0432".toList ++
    "\u044c\u044b\u0437\u0448\u044d\u0449\u0447\u044a".toList ++
    "\u042e\u0410\u0411\u0426\u0414\u0415\u0424\u0413".toList ++
    "\u0425\u0418\u0419\u041a\u041b\u041c\u041d\u041e".toList ++
    "\u041f\u042f\u0420\u0421\u0422\u0423\u0416\u0412".toList ++
    "\u042c\u042b\u0417\u0428\u042d\u0429\u0427\u042a".toList

def macintosh : CodePage where
  name := "macintosh"
  upper :=
    "\u00c4\u00c5\u00c7\u00c9\u00d1\u00d6\u00dc\u00e1".toList ++
    "\u00e0\u00e2\u00e4\u00e3\u00e5\u00e7\u00e9\u00e8".toList ++
    "\u00ea\u00eb\u00ed\u00ec\u00ee\u00ef\u00f1\u00f3".toList ++
    "\u00f2\u00f4\u00f6\u00f5\u00fa\u00f9\u00fb\u00fc".toList ++
    "\u2020\u00b0\u00a2\u00a3\u00a7\u2022\u00b6\u00df".toList ++
    "\u00ae\u00a9\u2122\u00b4\u00a8\u2260\u00c6\u00d8".toList ++
    "\u221e\u00b1\u2264\u2265\u00a5\u00b5\u2202\u2211".toList ++
    "\u220f\u03c0\u222b\u00aa\u00ba\u03a9\u00e6\u00f8".toList ++
    "\u00bf\u00a1\u00ac\u221a\u0192\u2248\u2206\u00ab".toList ++
    "\u00bb\u2026\u00a0\u00c0\u00c3\u00d5\u0152\u0153".toList ++
    "\u2013\u2014\u201c\u201d\u2018\u2019\u00f7\u25ca".toList ++
    "\u00ff\u0178\u2044\u20ac\u2039\u203a\ufb01\ufb02".toList ++
    "\u2021\u00b7\u201a\u201e\u2030\u00c2\u00ca\u00c1".toList ++
    "\u00cb\u00c8\u00cd\u00ce\u00cf\u00cc\u00d3\u00d4".toList ++
    "\uf8ff\u00d2\u00da\u00db\u00d9\u0131\u02c6\u02dc".toList ++
    "\u00af\u02d8\u02d9\u02da\u00b8\u02dd\u02db\u02c7".toList

def windows874 : CodePage where
  name := "windows-874"
  upper :=
    "\u20ac\u0081\u0082\u0083\u0084\u2026\u0086\u0087".toList ++
    "\u0088\u0089\u008a\u008b\u008c\u008d\u008e\u008f".toList ++
    "\u0090\u2018\u2019\u201c\u201d\u2022\u2013\u2014".toList ++
    "\u0098\u0099\u009a\u009b\u009c\u009d\u009e\u009f".toList ++
    "\u00a0\u0e01\u0e02\u0e03\u0e04\u0e05\u0e06\u0e07".toList ++
    "\u0e08\u0e09\u0e0a\u0e0b\u0e0c\u0e0d\u0e0e\u0e0f".toList ++
    "\u0e10\u0e11\u0e12\u0e13\u0e14\u0e15\u0e16\u0e17".toList ++
    "\u0e18\u0e19\u0e1a\u0e1b\u0e1c\u0e1d\u0e1e\u0e1f".toList ++
    "\u0e20\u0e21\u0e22\u0e23\u0e24\u0e25\u0e26\u0e27".toList ++
    "\u0e28\u0e29\u0e2a\u0e2b\u0e2c\u0e2d\u0e2e\u0e2f".toList ++
    "\u0e30\u0e31\u0e32\u0e33\u0e34\u0e35\u0e36\u0e37".toList ++
    "\u0e38\u0e39\u0e3a\ufffd\ufffd\ufffd\ufffd\u0e3f".toList ++
    "\u0e40\u0e41\u0e42\u0e43\u0e44\u0e45\u0e46\u0e47".toList ++
    "\u0e48\u0e49\u0e4a\u0e4b\u0e4c\u0e4d\u0e4e\u0e4f".toList ++
    "\u0e50\u0e51\u0e52\u0e53\u0e54\u0e55\u0e56\u0e57".toList ++
    "\u0e58\u0e59\u0e5a\u0e5b\ufffd\ufffd\ufffd\ufffd".toList

def windows1250 : CodePage where
  name := "windows-1250"
  upper :=
    "\u20ac\u0081\u201a\u0083\u201e\u2026\u2020\u2021".toList ++
    "\u0088\u2030\u0160\u2039\u015a\u0164\u017d\u0179".toList ++
    "\u0090\u2018\u2019\u201c\u201d\u2022\u2013\u2014".toList ++
    "\u0098\u2122\u0161\u203a\u015b\u0165\u017e\u017a".toList ++
    "\u00a0\u02c7\u02d8\u0141\u00a4\u0104\u00a6\u00a7".toList ++
    "\u00a8\u00a9\u015e\u00ab\u00ac\u00ad\u00ae\u017b".toList ++
    "\u00b0\u00b1\u02db\u0142\u00b4\u00b5\u00b6\u00b7".toList ++
    "\u00b8\u0105\u015f\u00bb\u013d\u02dd\u013e\u017c".toList ++
    "\u0154\u00c1\u00c2\u0102\u00c4\u0139\u0106\u00c7".toList ++
    "\u010c\u00c9\u0118\u00cb\u011a\u00cd\u00ce\u010e".toList ++
    "\u0110\u0143\u0147\u00d3\u00d4\u0150\u00d6\u00d7".toList ++
    "\u0158\u016e\u00da\u0170\u00dc\u00dd\u0162\u00df".toList ++
    "\u0155\u00e1\u00e2\u0103\u00e4\u013a\u0107\u00e7".toList ++
    "\u010d\u00e9\u0119\u00eb\u011b\u00ed\u00ee\u010f".toList ++
    "\u0111\u0144\u0148\u00f3\u00f4\u0151\u00f6\u00f7".toList ++
    "\u0159\u016f\u00fa\u0171\u00fc\u00fd\u0163\u02d9".toList

def windows1251 : CodePage where
  name := "windows-1251"
  upper :=
    "\u0402\u0403\u201a\u0453\u201e\u2026\u2020\u2021".toList ++
    "\u20ac\u2030\u0409\u2039\u040a\u040c\u040b\u040f".toList ++
    "\u0452\u2018\u2019\u201c\u201d\u2022\u2013\u2014".toList ++
    "\u0098\u2122\u0459\u203a\u045a\u045c\u045b\u045f".toList ++
    "\u00a0\u040e\u045e\u0408\u00a4\u0490\u00a6\u00a7".toList ++
    "\u0401\u00a9\u0404\u00ab\u00ac\u00ad\u00ae\u0407".toList ++
    "\u00b0\u00b1\u0406\u0456\u0491\u00b5\u00b6\u00b7".toList ++
    "\u0451\u2116\u0454\u00bb\u0458\u0405\u0455\u0457".toList ++
    "\u0410\u0411\u0412\u0413\u0414\u0415\u0416\u0417".toList ++
    "\u0418\u0419\u041a\u041b\u041c\u041d\u041e\u041f".toList ++
    "\u0420\u0421\u0422\u0423\u0424\u0425\u0426\u0427".toList ++
    "\u0428\u0429\u042a\u042b\u042c\u042d\u042e\u042f".toList ++
    "\u0430\u0431\u0432\u0433\u0434\u0435\u0436\u0437".toList ++
    "\u0438\u0439\u043a\u043b\u043c\u043d\u043e\u043f".toList ++
    "\u0440\u0441\u0442\u0443\u0444\u0445\u0446\u0447".toList ++
    "\u0448\u0449\u044a\u044b\u044c\u044d\u044e\u044f".toList

def windows1252 : CodePage where
  name := "windows-1252"
  upper :=
    "\u20ac\u0081\u201a\u0192\u201e\u2026\u2020\u2021".toList ++
    "\u02c6\u2030\u0160\u2039\u0152\u008d\u017d\u008f".toList ++
    "\u0090\u2018\u2019\u201c\u201d\u2022\u2013\u2014".toList ++
    "\u02dc\u2122\u0161\u203a\u0153\u009d\u017e\u0178".toList ++
    "\u00a0\u00a1\u00a2\u00a3\u00a4\u00a5\u00a6\u00a7".toList ++
    "\u00a8\u00a9\u00aa\u00ab\u00ac\u00ad\u00ae\u00af".toList ++
    "\u00b0\u00b1\u00b2\u00b3\u00b4\u00b5\u00b6\u00b7".toList ++
    "\u00b8\u00b9\u00ba\u00bb\u00bc\u00bd\u00be\u00bf".toList ++
    "\u00c0\u00c1\u00c2\u00c3\u00c4\u00c5\u00c6\u00c7".toList ++
    "\u00c8\u00c9\u00ca\u00cb\u00cc\u00cd\u00ce\u00cf".toList ++
    "\u00d0\u00d1\u00d2\u00d3\u00d4\u00d5\u00d6\u00d7".toList ++
    "\u00d8\u00d9\u00da\u00db\u00dc\u00dd\u00de\u00df".toList ++
    "\u00e0\u00e1\u00e2\u00e3\u00e4\u00e5\u00e6\u00e7".toList ++
    "\u00e8\u00e9\u00ea\u00eb\u00ec\u00ed\u00ee\u00ef".toList ++
    "\u00f0\u00f1\u00f2\u00f3\u00f4\u00f5\u00f6\u00f7".toList ++
    "\u00f8\u00f9\u00fa\u00fb\u00fc\u00fd\u00fe\u00ff".toList

def windows1253 : CodePage where
  name := "windows-1253"
  upper :=
    "\u20ac\u0081\u201a\u0192\u201e\u2026\u2020\u2021".toList ++
    "\u0088\u2030\u008a\u2039\u008c\u008d\u008e\u008f".toList ++
    "\u0090\u2018\u2019\u201c\u201d\u2022\u2013\u2014".toList ++
    "\u0098\u2122\u009a\u203a\u009c\u009d\u009e\u009f".toList ++
    "\u00a0\u0385\u0386\u00a3\u00a4\u00a5\u00a6\u00a7".toList ++
    "\u00a8\u00a9\ufffd\u00ab\u00ac\u00ad\u00ae\u2015".toList ++
    "\u00b0\u00b1\u00b2\u00b3\u0384\u00b5\u00b6\u00b7".toList ++
    "\u0388\u0389\u038a\u00bb\u038c\u00bd\u038e\u038f".toList ++
    "\u0390\u0391\u0392\u0393\u0394\u0395\u0396\u0397".toList ++
    "\u0398\u0399\u039a\u039b\u039c\u039d\u039e\u039f".toList ++
    "\u03a0\u03a1\ufffd\u03a3\u03a4\u03a5\u03a6\u03a7".toList ++
    "\u03a8\u03a9\u03aa\u03ab\u03ac\u03ad\u03ae\u03af".toList ++
    "\u03b0\u03b1\u03b2\u03b3\u03b4\u03b5\u03b6\u03b7".toList ++
    "\u03b8\u03b9\u03ba\u03bb\u03bc\u03bd\u03be\u03bf".toList ++
    "\u03c0\u03c1\u03c2\u03c3\u03c4\u03c5\u03c6\u03c7".toList ++
    "\u03c8\u03c9\u03ca\u03cb\u03cc\u03cd\u03ce\ufffd".toList

def windows1254 : CodePage where
  name := "windows-1254"
  upper :=
    "\u20ac\u0081\u201a\u0192\u201e\u2026\u2020\u2021".toList ++
    "\u02c6\u2030\u0160\u2039\u0152\u008d\u008e\u008f".toList ++
    "\u0090\u2018\u2019\u201c\u201d\u2022\u2013\u2014".toList ++
    "\u02dc\u2122\u0161\u203a\u0153\u009d\u009e\u0178".toList ++
    "\u00a0\u00a1\u00a2\u00a3\u00a4\u00a5\u00a6\u00a7".toList ++
    "\u00a8\u00a9\u00aa\u00ab\u00ac\u00ad\u00ae\u00af".toList ++
    "\u00b0\u00b1\u00b2\u00b3\u00b4\u00b5\u00b6\u00b7".toList ++
    "\u00b8\u00b9\u00ba\u00bb\u00bc\u00bd\u00be\u00bf".toList ++
    "\u00c0\u00c1\u00c2\u00c3\u00c4\u00c5\u00c6\u00c7".toList ++
    "\u00c8\u00c9\u00ca\u00cb\u00cc\u00cd\u00ce\u00cf".toList ++
    "\u011e\u00d1\u00d2\u00d3\u00d4\u00d5\u00d6\u00d7".toList ++
    "\u00d8\u00d9\u00da\u00db\u00dc\u0130\u015e\u00df".toList ++
    "\u00e0\u00e1\u00e2\u00e3\u00e4\u00e5\u00e6\u00e7".toList ++
    "\u00e8\u00e9\u00ea\u00eb\u00ec\u00ed\u00ee\u00ef".toList ++
    "\u011f\u00f1\u00f2\u00f3\u00f4\u00f5\u00f6\u00f7".toList ++
    "\u00f8\u00f9\u00fa\u00fb\u00fc\u0131\u015f\u00ff".toList

def windows1255 : CodePage where
  name := "windows-1255"
  upper :=
    "\u20ac\u0081\u201a\u0192\u201e\u2026\u2020\u2021".toList ++
    "\u02c6\u2030\u008a\u2039\u008c\u008d\u008e\u008f".toList ++
    "\u0090\u2018\u2019\u201c\u201d\u2022\u2013\u2014".toList ++
    "\u02dc\u2122\u009a\u203a\u009c\u009d\u009e\u009f".toList ++
    "\u00a0\u00a1\u00a2\u00a3\u20aa\u00a5\u00a6\u00a7".toList ++
    "\u00a8\u00a9\u00d7\u00ab\u00ac\u00ad\u00ae\u00af".toList ++
    "\u00b0\u00b1\u00b2\u00b3\u00b4\u00b5\u00b6\u00b7".toList ++
    "\u00b8\u00b9\u00f7\u00bb\u00bc\u00bd\u00be\u00bf".toList ++
    "\u05b0\u05b1\u05b2\u05b3\u05b4\u05b5\u05b6\u05b7".toList ++
    "\u05b8\u05b9\u05ba\u05bb\u05bc\u05bd\u05be\u05bf".toList ++
    "\u05c0\u05c1\u05c2\u05c3\u05f0\u05f1\u05f2\u05f3".toList ++
    "\u05f4\ufffd\ufffd\ufffd\ufffd\ufffd\ufffd\ufffd".toList ++
    "\u05d0\u05d1\u05d2\u05d3\u05d4\u05d5\u05d6\u05d7".toList ++
    "\u05d8\u05d9\u05da\u05db\u05dc\u05dd\u05de\u05df".toList ++
    "\u05e0\u05e1\u05e2\u05e3\u05e4\u05e5\u05e6\u05e7".toList ++
    "\u05e8\u05e9\u05ea\ufffd\ufffd\u200e\u200f\ufffd".toList

def windows1256 : CodePage where
  name := "windows-1256"
  upper :=
    "\u20ac\u067e\u201a\u0192\u201e\u2026\u2020\u2021".toList ++
    "\u02c6\u2030\u0679\u2039\u0152\u0686\u0698\u0688".toList ++
    "\u06af\u2018\u2019\u201c\u201d\u2022\u2013\u2014".toList ++
    "\u06a9\u2122\u0691\u203a\u0153\u200c\u200d\u06ba".toList ++
    "\u00a0\u060c\u00a2\u00a3\u00a4\u00a5\u00a6\u00a7".toList ++
    "\u00a8\u00a9\u06be\u00ab\u00ac\u00ad\u00ae\u00af".toList ++
    "\u00b0\u00b1\u00b2\u00b3\u00b4\u00b5\u00b6\u00b7".toList ++
    "\u00b8\u00b9\u061b\u00bb\u00bc\u00bd\u00be\u061f".toList ++
    "\u06c1\u0621\u0622\u0623\u0624\u0625\u0626\u0627".toList ++
    "\u0628\u0629\u062a\u062b\u062c\u062d\u062e\u062f".toList ++
    "\u0630\u0631\u0632\u0633\u0634\u0635\u0636\u00d7".toList ++
    "\u0637\u0638\u0639\u063a\u0640\u0641\u0642\u0643".toList ++
    "\u00e0\u0644\u00e2\u0645\u0646\u0647\u0648\u00e7".toList ++
    "\u00e8\u00e9\u00ea\u00eb\u0649\u064a\u00ee\u00ef".toList ++
    "\u064b\u064c\u064d\u064e\u00f4\u064f\u0650\u00f7".toList ++
    "\u0651\u00f9\u0652\u00fb\u00fc\u200e\u200f\u06d2".toList

def windows1257 : CodePage where
  name := "windows-1257"
  upper :=
    "\u20ac\u0081\u201a\u0083\u201e\u2026\u2020\u2021".toList ++
    "\u0088\u2030\u008a\u2039\u008c\u00a8\u02c7\u00b8".toList ++
    "\u0090\u2018\u2019\u201c\u201d\u2022\u2013\u2014".toList ++
    "\u0098\u2122\u009a\u203a\u009c\u00af\u02db\u009f".toList ++
    "\u00a0\ufffd\u00a2\u00a3\u00a4\ufffd\u00a6\u00a7".toList ++
    "\u00d8\u00a9\u0156\u00ab\u00ac\u00ad\u00ae\u00c6".toList ++
    "\u00b0\u00b1\u00b2\u00b3\u00b4\u00b5\u00b6\u00b7".toList ++
    "\u00f8\u00b9\u0157\u00bb\u00bc\u00bd\u00be\u00e6".toList ++
    "\u0104\u012e\u0100\u0106\u00c4\u00c5\u0118\u0112".toList ++
    "\u010c\u00c9\u0179\u0116\u0122\u0136\u012a\u013b".toList ++
    "\u0160\u0143\u0145\u00d3\u014c\u00d5\u00d6\u00d7".toList ++
    "\u0172\u0141\u015a\u016a\u00dc\u017b\u017d\u00df".toList ++
    "\u0105\u012f\u0101\u0107\u00e4\u00e5\u0119\u0113".toList ++
    "\u010d\u00e9\u017a\u0117\u0123\u0137\u012b\u013c".toList ++
    "\u0161\u0144\u0146\u00f3\u014d\u00f5\u00f6\u00f7".toList ++
    "\u0173\u0142\u015b\u016b\u00fc\u017c\u017e\u02d9".toList

def windows1258 : CodePage where
  name := "windows-1258"
  upper :=
    "\u20ac\u0081\u201a\u0192\u201e\u2026\u2020\u2021".toList ++
    "\u02c6\u2030\u008a\u2039\u0152\u008d\u008e\u008f".toList ++
    "\u0090\u2018\u2019\u201c\u201d\u2022\u2013\u2014".toList ++
    "\u02dc\u2122\u009a\u203a\u0153\u009d\u009e\u0178".toList ++
    "\u00a0\u00a1\u00a2\u00a3\u00a4\u00a5\u00a6\u00a7".toList ++
    "\u00a8\u00a9\u00aa\u00ab\u00ac\u00ad\u00ae\u00af".toList ++
    "\u00b0\u00b1\u00b2\u00b3\u00b4\u00b5\u00b6\u00b7".toList ++
    "\u00b8\u00b9\u00ba\u00bb\u00bc\u00bd\u00be\u00bf".toList ++
    "\u00c0\u00c1\u00c2\u0102\u00c4\u00c5\u00c6\u00c7".toList ++
    "\u00c8\u00c9\u00ca\u00cb\u0300\u00cd\u00ce\u00cf".toList ++
    "\u0110\u00d1\u0309\u00d3\u00d4\u01a0\u00d6\u00d7".toList ++
    "\u00d8\u00d9\u00da\u00db\u00dc\u01af\u0303\u00df".toList ++
    "\u00e0\u00e1\u00e2\u0103\u00e4\u00e5\u00e6\u00e7".toList ++
    "\u00e8\u00e9\u00ea\u00eb\u0301\u00ed\u00ee\u00ef".toList ++
    "\u0111\u00f1\u0323\u00f3\u00f4\u01a1\u00f6\u00f7".toList ++
    "\u00f8\u00f9\u00fa\u00fb\u00fc\u01b0\u20ab\u00ff".toList

def xMacCyrillic : CodePage where
  name := "x-mac-cyrillic"
  upper :=
    "\u0410\u0411\u0412\u0413\u0414\u0415\u0416\u0417".toList ++
    "\u0418\u0419\u041a\u041b\u041c\u041d\u041e\u041f".toList ++
    "\u0420\u0421\u0422\u0423\u0424\u0425\u0426\u0427".toList ++
    "\u0428\u0429\u042a\u042b\u042c\u042d\u042e\u042f".toList ++
    "\u2020\u00b0\u0490\u00a3\u00a7\u2022\u00b6\u0406".toList ++
    "\u00ae\u00a9\u2122\u0402\u0452\u2260\u0403\u0453".toList ++
    "\u221e\u00b1\u2264\u2265\u0456\u00b5\u0491\u0408".toList ++
    "\u0404\u0454\u0407\u0457\u0409\u0459\u040a\u045a".toList ++
    "\u0458\u0405\u00ac\u221a\u0192\u2248\u2206\u00ab".toList ++
    "\u00bb\u2026\u00a0\u040b\u045b\u040c\u045c\u0455".toList ++
    "\u2013\u2014\u201c\u201d\u2018\u2019\u00f7\u201e".toList ++
    "\u040e\u045e\u040f\u045f\u2116\u0401\u0451\u044f".toList ++
    "\u0430\u0431\u0432\u0433\u0434\u0435\u0436\u0437".toList ++
    "\u0438\u0439\u043a\u043b\u043c\u043d\u043e\u043f".toList ++
    "\u0440\u0441\u0442\u0443\u0444\u0445\u0446\u0447".toList ++
    "\u0448\u0449\u044a\u044b\u044c\u044d\u044e\u20ac".toList

def xUserDefined : CodePage where
  name := "x-user-defined"
  upper :=
    "\uf780\uf781\uf782\uf783\uf784\uf785\uf786\uf787".toList ++
    "\uf788\uf789\uf78a\uf78b\uf78c\uf78d\uf78e\uf78f".toList ++
    "\uf790\uf791\uf792\uf793\uf794\uf795\uf796\uf797".toList ++
    "\uf798\uf799\uf79a\uf79b\uf79c\uf79d\uf79e\uf79f".toList ++
    "\uf7a0\uf7a1\uf7a2\uf7a3\uf7a4\uf7a5\uf7a6\uf7a7".toList ++
    "\uf7a8\uf7a9\uf7aa\uf7ab\uf7ac\uf7ad\uf7ae\uf7af".toList ++
    "\uf7b0\uf7b1\uf7b2\uf7b3\uf7b4\uf7b5\uf7b6\uf7b7".toList ++
    "\uf7b8\uf7b9\uf7ba\uf7bb\uf7bc\uf7bd\uf7be\uf7bf".toList ++
    "\uf7c0\uf7c1\uf7c2\uf7c3\uf7c4\uf7c5\uf7c6\uf7c7".toList ++
    "\uf7c8\uf7c9\uf7ca\uf7cb\uf7cc\uf7cd\uf7ce\uf7cf".toList ++
    "\uf7d0\uf7d1\uf7d2\uf7d3\uf7d4\uf7d5\uf7d6\uf7d7".toList ++
    "\uf7d8\uf7d9\uf7da\uf7db\uf7dc\uf7dd\uf7de\uf7df".toList ++
    "\uf7e0\uf7e1\uf7e2\uf7e3\uf7e4\uf7e5\uf7e6\uf7e7".toList ++
    "\uf7e8\uf7e9\uf7ea\uf7eb\uf7ec\uf7ed\uf7ee\uf7ef".toList ++
    "\uf7f0\uf7f1\uf7f2\uf7f3\uf7f4\uf7f5\uf7f6\uf7f7".toList ++
    "\uf7f8\uf7f9\uf7fa\uf7fb\uf7fc\uf7fd\uf7fe\uf7ff".toList

/-- All code pages. -/
def all : List CodePage := [
  ibm866, iso88592, iso88593, iso88594, iso88595, iso88596, iso88597, iso88598, iso88598I,
  iso885910, iso885913, iso885914, iso885915, iso885916, koi8R, koi8U, macintosh, windows874,
  windows1250, windows1251, windows1252, windows1253, windows1254, windows1255, windows1256,
  windows1257, windows1258, xMacCyrillic, xUserDefined]

/-- The code page of the given name. -/
def ofName? (name : String) : Option CodePage := all.find? (·.name == name)

end CodePage

end SafeMarkup
