import PatternScript.Script.Command

/-!
# The built-in script

It runs where no other script can: a black ground with a turning fan of discs and stamps
whose number follows the clock.
-/
namespace PatternScript

def Script.builtinSource : String := r#"DEFINE PATTERN NAME="artdeco" WIDTH=20 HEIGHT=20 DATA="0000000000000000000000000000000000000000000000000000000000000000000000000000000000000000000000000000000000000000000000000001000000000000010000001000000000001000000001000000000100000000001000000010000000000001000001000000000000001000000000000010000000000000001000010000000000000100000010000000000010000000010000000001000000000010000000100000000000010000010000000000000000000000000000000000000000000000"

VAR $center_x
VAR $center_y
VAR $secondplus
VAR $rotation
VAR $size

# fill background
COLOR NAME=BLACK
FILL NAME=SOLID
FILL_RECT WIDTH=$WIDTH HEIGHT=$HEIGHT X=0 Y=0

LET $center_x = $WIDTH / 2
LET $center_y = $HEIGHT / 2

TRANSLATE DX=$center_x DY=$center_y

LET $secondplus = 3 + $SECOND * $counter % 15
LET $rotation = 360 * 89 / $secondplus
ROTATE DEGREES=$rotation

LET $size = $width / 40

FILL NAME="artdeco"
COLOR NAME=BLACK

REPEAT COUNT=$secondplus

ROTATE DEGREES=$rotation

VAR $radius = $INDEX * 10 % 50
VAR $Xposition= 0
VAR $Yposition= $INDEX

FILL_CIRCLE RADIUS=$INDEX X=$Xposition Y=$Yposition

IF $INDEX % 2 == 0 THEN
COLOR NAME=WHITE
SCALE FACTOR=$size
ELSE
COLOR NAME=BLACK
SCALE FACTOR=$size
ENDIF

DRAW name="artdeco" x=$Xposition y=$Yposition

ENDREPEAT
"#

end PatternScript
