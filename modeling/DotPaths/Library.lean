/-! # Built-in libraries

    The libraries that every program can use.  Each is a drawing, given row by
    row; comments are left out.
-/

namespace DotPaths.Library

/-- Turns a zero into a one and anything else into a zero, from any side to the opposite one. -/
def boolNot : List String :=
  ["",
   "",
   "",
   "",
   "%^X",
   "%$ABCD",
   "",
   "  C",
   "  |",
   "B-X-A",
   "  |",
   "  D",
   "",
   "",
   "    /#0)",
   "   /^\\",
   "A<*/|\\*>B",
   " \\>\x7b=\x7d</",
   "",
   "  D",
   " /^",
   " v*",
   " |\\\\",
   "[=]>#0)",
   " |//",
   " ^*",
   " \\v",
   "  C",
   ""]

/-- Lets the dot from the left go on upwards as many times as the value of the dot
    from the right says. -/
def clone : List String :=
  ["%^X",
   "%$TRBL",
   "",
   " B",
   "RXL",
   " T",
   "   T",
   "  /* /\\",
   "L->~-/B /-\\",
   "   ^----~\\|",
   "   *-\x7b-\x7d*/|",
   "   *#1/   |",
   "   \\------<R",
   ""]

/-- Gathers dots from the left and hands them on. -/
def compress : List String :=
  ["",
   "",
   "",
   "",
   "",
   "",
   "",
   "",
   "",
   "%^X",
   "%$L_RB",
   "",
   "  B",
   "  |",
   "R-X-L",
   "  |",
   "  _",
   "",
   "L-*--\x7b+\x7d->-R",
   "  |   @  |",
   "  \\-#1/  |",
   "         B",
   ""]

/-- Spreads dots out by their ids. -/
def decompress : List String :=
  ["",
   "",
   "",
   "",
   "",
   "",
   "",
   "",
   "",
   "%^X",
   "%$L_RB",
   "",
   "  B",
   "  |",
   "R-X-L",
   "  |",
   "  _",
   "",
   "      /-@1-\\",
   "    /-*--@\x7b-\x7d-R",
   "L-*@~-\\",
   "  | @ B",
   "  \\-/",
   ""]

/-- Counts from the value of the dot from the left to that of the dot from the
    right.  Each number leaves upwards; a last dot leaves downwards. -/
def forInRange : List String :=
  ["",
   "",
   "",
   "",
   "",
   "",
   "",
   "",
   "%^X",
   "%$AOBC",
   "",
   "  C",
   "  |",
   "B-X-A",
   "  |",
   "  O",
   "",
   "  /-------\x7b+\x7d-\\",
   "  |        1  | O",
   "  |        #  *-/",
   "A->-*-----~*--/",
   "    |     | /-\\",
   "    \\-\x7b>\x7d-*-v C",
   "    /--*-<--~-\\",
   "    |   [-]-\\ |",
   "    \\----+--+-/",
   "         *#1/",
   "         \\B",
   ""]

/-- A list of dots, with the operations chosen by the id of the dot from above. -/
def list : List String :=
  ["",
   "",
   "%^X",
   "%$FAOS",
   "%$aGDRLCET",
   "%$g",
   "%!storage.dots l  ",
   "%!storage.dots q  ",
   "%!for_in_range.dots f",
   "%!clone.dots c",
   "",
   "  F                                                                                                                        ",
   " OXA                                                                                                                       ",
   "  S ",
   "",
   "              /-a ",
   "   /-*--*@\x7b=\x7d*~                            ",
   "   F |  \\#0/ |@                            ",
   "     |       \\/-G ",
   "     *--*@\x7b=\x7d*~                            ",
   "     |  \\#1/ |@                            ",
   "     |       \\/-D ",
   "     *--*@\x7b=\x7d*~                            ",
   "     |  \\#2/ |@                            ",
   "     |       \\/-R ",
   "     *--*@\x7b=\x7d*~                            ",
   "     |  \\#3/ |@                            ",
   "     |       \\/-L ",
   "     *--*@\x7b=\x7d*~                            ",
   "     |  \\#4/ |@                            ",
   "     |       \\/-C ",
   "     *--*@\x7b=\x7d*~                            ",
   "     |  \\#5/ |@                            ",
   "     |       \\/-E ",
   "     *--*@\x7b=\x7d*~                            ",
   "     |  \\#6/ |@                            ",
   "     |       \\/-T ",
   "     \\--*@\x7b=\x7d*~                            ",
   "        \\#7/ |@                                                                                                               ",
   "             \\/                                                                                                               ",
   "       ",
   "      .-#0-\\             Ll*O ",
   "           l               l                                   l                                                   ",
   "                                                           /#1[+]                                                  ",
   "                                                    /l-----*---/                                                   ",
   "                                                    |      |                                                       ",
   "                                                    |      |                                                       ",
   "                           /O                  A->--*-@0-@\x7b+\x7d-\\  ",
   "                       q /-~                   a-/            q  ",
   "         /-----------q-*-~ |                                                                                                ",
   "G--*--#0-f--\\          @ | |  ",
   "   |    /+--+---------\x7b=\x7d/ |                                                                                                 ",
   "   *----c+--*              |                       q                                                                   ",
   "   |     \\--+----#1--*-----/         /-------------~                                                                 ",
   "   \\---l----*        | l       S     |         /-#1/                                                                                                ",
   "            \\--------+-~       *-----/-----q-*-~-\\                                                                                                  ",
   "                     \\-/       *--#0-f--\\    @ @ q                                                                                                  ",
   "                               |    /+--+--@\x7b=\x7d/                                                                                                    ",
   "                               *----c+--*                                                                                                           ",
   "                               |     |  |      l  ",
   "                               \\---l-+--*------~                                                                                                               ",
   "                                     \\-#1------*-O                                                                                ",
   "                                                                                                                             ",
   "                                                                                                                             ",
   "                                                                                                                             ",
   "                                                                                                                             ",
   "                                                                                                                             ",
   ""]

/-- Negates the value of a dot that passes, in any direction. -/
def neg : List String :=
  ["",
   "",
   "%^X",
   "%$LRTB",
   "",
   "  T",
   " RXL",
   "  B",
   "",
   "L<*---v---*>R",
   " \\>#0\x7b-\x7d0#</",
   "",
   "   B",
   " /-^",
   " v-*",
   " # |",
   " 0 |",
   "[-]<",
   " 0 |",
   " # |",
   " ^-*",
   " \\-v",
   "   T",
   ""]

/-- Negates the id of a dot that passes, in any direction. -/
def negateId : List String :=
  ["%^X",
   "%$LRTB",
   "                       T",
   " B                     ^\\",
   "RXL                  /-*v",
   " T                   |  @",
   "                     |  0",
   "                     |  |",
   " />-@0-@\x7b-\x7d@-0@-<\\   |  @",
   "L<*      @     -*>R  >@[-]",
   "  \\------^------/    |  @",
   "                     |  |",
   "                     |  0",
   "                     |  @",
   "                     \\-*^",
   "                       v/",
   "                       B",
   ""]

/-- Keeps a dot until another one asks for it. -/
def storage : List String :=
  ["%^X",
   "%$LRTB",
   "             T",
   "            /*",
   " B      /---/@",
   "RX#0-@0\x7b+\x7d-@\x7b+\x7d@-0@-0#R",
   " T      \\---\\@",
   "            \\*",
   "             B"]

/-- Copies the value of a dot that passes into its id. -/
def valToId : List String :=
  ["%^X",
   "%$ABCD",
   "",
   "  C",
   "  |",
   "B-X-A",
   "  |",
   "  D",
   "",
   "A-@0<*--v--*>0@-B",
   "    \\>@\x7b+\x7d@</",
   "",
   "    D",
   "    |",
   "    @",
   "    0",
   "   /^",
   "   v*",
   "   @\\\\",
   "  [+]<",
   "   @//",
   "   ^*",
   "   \\v",
   "    0",
   "    @",
   "    |",
   "    C",
   ""]

/-- Holds a dot back for about as many ticks as a second dot says. -/
def wait : List String :=
  ["",
   "",
   "",
   "",
   "",
   "",
   "",
   "",
   "",
   "",
   "",
   "",
   "",
   "%^X",
   "%$LRB",
   "%$w",
   " B                                                          ",
   "RXL                 /R                                      ",
   "                   L~                                       ",
   "                   w*                                       ",
   "                   /~*----\\                                 ",
   "                   */|    @                                 ",
   "                /@[<]\\#33[+]    ",
   "                \\--*<-\x7b+\x7d-*                           ",
   "                   \\2--~  |                                 ",
   "                    2  ^1#/                                 ",
   "                    @  ^0#w                                 ",
   "                    B                                        ",
   "                                                            ",
   "                                                            "]

/-- The libraries by the names under which a program asks for them. -/
def all : List (String × List String) :=
  [("bool_not.dots", boolNot),
   ("clone.dots", clone),
   ("compress.dots", compress),
   ("decompress.dots", decompress),
   ("for_in_range.dots", forInRange),
   ("list.dots", list),
   ("neg.dots", neg),
   ("negate_id.dots", negateId),
   ("storage.dots", storage),
   ("val_to_id.dots", valToId),
   ("wait.dots", wait)]

end DotPaths.Library
