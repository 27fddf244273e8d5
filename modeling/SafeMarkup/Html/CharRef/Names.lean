import SafeMarkup.Text.Basic

/-!
# Names of character references

The commonly used part of the named references. A name that is not in the table is never taken for
a reference, so an `&` before it is escaped.
-/

namespace SafeMarkup.Html.CharRef

/-- The named references and their characters, in ascending order of the names. -/
def named : List (String × Char) := [
    ("AElig", '\u00c6'), ("Aacute", '\u00c1'), ("Acirc", '\u00c2'), ("Agrave", '\u00c0'),
    ("Alpha", '\u0391'), ("Aring", '\u00c5'), ("Atilde", '\u00c3'), ("Auml", '\u00c4'),
    ("Beta", '\u0392'), ("Ccedil", '\u00c7'), ("Dagger", '\u2021'), ("Delta", '\u0394'),
    ("ETH", '\u00d0'), ("Eacute", '\u00c9'), ("Ecirc", '\u00ca'), ("Egrave", '\u00c8'),
    ("Euml", '\u00cb'), ("Gamma", '\u0393'), ("Iacute", '\u00cd'), ("Icirc", '\u00ce'),
    ("Igrave", '\u00cc'), ("Iuml", '\u00cf'), ("Ntilde", '\u00d1'), ("Oacute", '\u00d3'),
    ("Ocirc", '\u00d4'), ("Ograve", '\u00d2'), ("Omega", '\u03a9'), ("Oslash", '\u00d8'),
    ("Otilde", '\u00d5'), ("Ouml", '\u00d6'), ("Pi", '\u03a0'), ("Prime", '\u2033'),
    ("Sigma", '\u03a3'), ("THORN", '\u00de'), ("Theta", '\u0398'), ("Uacute", '\u00da'),
    ("Ucirc", '\u00db'), ("Ugrave", '\u00d9'), ("Uuml", '\u00dc'), ("Yacute", '\u00dd'),
    ("aacute", '\u00e1'), ("acirc", '\u00e2'), ("acute", '\u00b4'), ("aelig", '\u00e6'),
    ("agrave", '\u00e0'), ("alpha", '\u03b1'), ("amp", '&'), ("apos", '\''), ("aring", '\u00e5'),
    ("asymp", '\u2248'), ("atilde", '\u00e3'), ("auml", '\u00e4'), ("bdquo", '\u201e'),
    ("beta", '\u03b2'), ("brvbar", '\u00a6'), ("bull", '\u2022'), ("cap", '\u2229'),
    ("ccedil", '\u00e7'), ("cedil", '\u00b8'), ("cent", '\u00a2'), ("circ", '\u02c6'),
    ("clubs", '\u2663'), ("cong", '\u2245'), ("copy", '\u00a9'), ("cup", '\u222a'),
    ("curren", '\u00a4'), ("dagger", '\u2020'), ("darr", '\u2193'), ("deg", '\u00b0'),
    ("delta", '\u03b4'), ("diams", '\u2666'), ("divide", '\u00f7'), ("eacute", '\u00e9'),
    ("ecirc", '\u00ea'), ("egrave", '\u00e8'), ("empty", '\u2205'), ("emsp", '\u2003'),
    ("ensp", '\u2002'), ("epsilon", '\u03b5'), ("equiv", '\u2261'), ("eth", '\u00f0'),
    ("euml", '\u00eb'), ("euro", '\u20ac'), ("exist", '\u2203'), ("forall", '\u2200'),
    ("frac12", '\u00bd'), ("frac14", '\u00bc'), ("frac34", '\u00be'), ("frasl", '\u2044'),
    ("gamma", '\u03b3'), ("ge", '\u2265'), ("gt", '>'), ("harr", '\u2194'), ("hearts", '\u2665'),
    ("hellip", '\u2026'), ("iacute", '\u00ed'), ("icirc", '\u00ee'), ("iexcl", '\u00a1'),
    ("igrave", '\u00ec'), ("infin", '\u221e'), ("int", '\u222b'), ("iquest", '\u00bf'),
    ("isin", '\u2208'), ("iuml", '\u00ef'), ("lArr", '\u21d0'), ("lambda", '\u03bb'),
    ("lang", '\u2329'), ("laquo", '\u00ab'), ("larr", '\u2190'), ("lceil", '\u2308'),
    ("ldquo", '\u201c'), ("le", '\u2264'), ("lfloor", '\u230a'), ("lowast", '\u2217'),
    ("loz", '\u25ca'), ("lrm", '\u200e'), ("lsaquo", '\u2039'), ("lsquo", '\u2018'), ("lt", '<'),
    ("macr", '\u00af'), ("mdash", '\u2014'), ("micro", '\u00b5'), ("middot", '\u00b7'),
    ("minus", '\u2212'), ("mu", '\u03bc'), ("nbsp", '\u00a0'), ("ndash", '\u2013'),
    ("ne", '\u2260'), ("not", '\u00ac'), ("notin", '\u2209'), ("ntilde", '\u00f1'),
    ("oacute", '\u00f3'), ("ocirc", '\u00f4'), ("ograve", '\u00f2'), ("oline", '\u203e'),
    ("omega", '\u03c9'), ("oplus", '\u2295'), ("ordf", '\u00aa'), ("ordm", '\u00ba'),
    ("oslash", '\u00f8'), ("otilde", '\u00f5'), ("otimes", '\u2297'), ("ouml", '\u00f6'),
    ("para", '\u00b6'), ("permil", '\u2030'), ("perp", '\u22a5'), ("pi", '\u03c0'),
    ("plusmn", '\u00b1'), ("pound", '\u00a3'), ("prime", '\u2032'), ("prod", '\u220f'),
    ("quot", '"'), ("rArr", '\u21d2'), ("radic", '\u221a'), ("rang", '\u232a'),
    ("raquo", '\u00bb'), ("rarr", '\u2192'), ("rceil", '\u2309'), ("rdquo", '\u201d'),
    ("reg", '\u00ae'), ("rfloor", '\u230b'), ("rlm", '\u200f'), ("rsaquo", '\u203a'),
    ("rsquo", '\u2019'), ("sbquo", '\u201a'), ("sect", '\u00a7'), ("shy", '\u00ad'),
    ("sigma", '\u03c3'), ("sim", '\u223c'), ("spades", '\u2660'), ("sub", '\u2282'),
    ("sube", '\u2286'), ("sum", '\u2211'), ("sup", '\u2283'), ("sup1", '\u00b9'),
    ("sup2", '\u00b2'), ("sup3", '\u00b3'), ("supe", '\u2287'), ("szlig", '\u00df'),
    ("tau", '\u03c4'), ("there4", '\u2234'), ("theta", '\u03b8'), ("thinsp", '\u2009'),
    ("thorn", '\u00fe'), ("tilde", '\u02dc'), ("times", '\u00d7'), ("trade", '\u2122'),
    ("uacute", '\u00fa'), ("uarr", '\u2191'), ("ucirc", '\u00fb'), ("ugrave", '\u00f9'),
    ("uml", '\u00a8'), ("uuml", '\u00fc'), ("yacute", '\u00fd'), ("yen", '\u00a5'),
    ("yuml", '\u00ff'), ("zwj", '\u200d'), ("zwnj", '\u200c')]

/-- The character of the reference with this name, if there is one. -/
def lookup? (name : Text) : Option Char :=
  (named.find? fun entry => entry.1.toList == name).map Prod.snd

/-- A name that is this long or longer is not in the table. -/
def nameBound : Nat := 8

end SafeMarkup.Html.CharRef
