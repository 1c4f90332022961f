import ChipEight.FileTree
import ChipEight.Main
import ChipEight.Proofs.Abreast
import ChipEight.Proofs.Blocks
import ChipEight.Proofs.Computing
import ChipEight.Proofs.Countdown
import ChipEight.Proofs.Drawing
import ChipEight.Proofs.Effects
import ChipEight.Proofs.Erasing
import ChipEight.Proofs.ExitCode
import ChipEight.Proofs.Flow
import ChipEight.Proofs.Freshness
import ChipEight.Proofs.Halt
import ChipEight.Proofs.HeldKeys
import ChipEight.Proofs.LastWrite
import ChipEight.Proofs.Loading
import ChipEight.Proofs.Pauses
import ChipEight.Proofs.Pixels
import ChipEight.Proofs.RandomBytes
import ChipEight.Proofs.Saving
import ChipEight.Proofs.StrayReleases
import ChipEight.Proofs.Subroutines
import ChipEight.Proofs.TimerRate
import ChipEight.Proofs.Toggling
import ChipEight.Proofs.Tone
